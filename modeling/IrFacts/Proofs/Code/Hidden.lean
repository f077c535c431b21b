import IrFacts.Proofs.Code.Played
import IrFacts.Proofs.Labels.Stability
import IrFacts.Proofs.Run.Declarations

/-!
# Rows under hidden labels

A label that was handed out to somebody and is remembered by nobody is hidden: code
that is not told of it cannot mention it. So the rows under a hidden label are those
that were meant to stand there. Code that is attached to a slot under a hidden label
writes one row there at most, and none under any other.
-/

set_option autoImplicit false

namespace IrFacts

/-! ## Rows under a label -/

namespace Trap

/-- The rows that stand right under a label, in their order. -/
def children (parent : Label) (ls : List Line) : List Row :=
  (ls.filterMap Line.row?).filter (·.parent = parent)

variable {parent : Label} {ls ms : List Line}

theorem children_append (parent : Label) (ls ms : List Line) :
    children parent (ls ++ ms) = children parent ls ++ children parent ms := by
  rw [children, List.filterMap_append, List.filter_append]
  rfl

theorem children_eq_nil_iff :
    children parent ls = [] ↔ ∀ r ∈ ls.filterMap Line.row?, r.parent ≠ parent := by
  simp [children, List.filter_eq_nil_iff]

/-- The rows that stand under a label at an index. -/
def childrenAt (parent : Label) (index : Int) (ls : List Line) : List Row :=
  (children parent ls).filter (·.index = index)

theorem childrenAt_append (parent : Label) (index : Int) (ls ms : List Line) :
    childrenAt parent index (ls ++ ms) =
      childrenAt parent index ls ++ childrenAt parent index ms := by
  rw [childrenAt, children_append, List.filter_append]
  rfl

theorem childrenAt_eq_nil {index : Int} (h : ∀ r ∈ children parent ls, r.index ≠ index) :
    childrenAt parent index ls = [] :=
  List.filter_eq_nil_iff.mpr fun r hr => by simpa using h r hr

theorem childrenAt_of_forall {index : Int} (h : ∀ r ∈ children parent ls, r.index = index) :
    childrenAt parent index ls = children parent ls :=
  List.filter_eq_self.mpr fun r hr => by simpa using h r hr

theorem children_of_rows {rows : List Row} (h : ls.filterMap Line.row? = rows) :
    children parent ls = rows.filter (·.parent = parent) := by
  rw [children, h]

theorem Fact.parent_mem_args {f : Fact} {r : Row} (h : f.row? = some r) :
    .label r.parent ∈ f.args := by
  obtain ⟨relation, args⟩ := f
  simp only [Fact.row?] at h
  split at h
  · split at h
    · obtain ⟨k, -, rfl⟩ := Option.map_eq_some_iff.mp h
      simp
    · cases h
  split at h
  · split at h
    · obtain ⟨k, -, rfl⟩ := Option.map_eq_some_iff.mp h
      simp
    · cases h
  split at h
  · split at h
    · cases h
      simp
    · cases h
  · cases h

theorem row?_of_holds {slot : Slot} {f : Fact} (h : slot.Holds f) :
    ∃ r, f.row? = some r ∧ r.parent = slot.parent ∧ r.index = slot.index := by
  cases h with
  | stmt id kind callable => exact ⟨_, Fact.row?_stmts .., rfl, rfl⟩
  | expr id kind type => exact ⟨_, Fact.row?_exprs .., rfl, rfl⟩

end Trap

/-! ## Labels that a session does not remember -/

namespace Session

/-- The labels that a session may come up with by itself. -/
def remembered (s : Session) : List Label :=
  s.file.target.label ::
    (s.table.bound.map (·.2) ++ s.locals.map (·.2) ++ s.openLoops.map (·.2))

/-- The label was handed out before, if it is a number, and is not hidden. -/
def Visible (s : Session) (hidden : Set Nat) (l : Label) : Prop :=
  ∀ k, l = .number k → k < s.table.next ∧ k ∉ hidden

/-- The hidden labels were handed out, and the session remembers none of them. The number of
the placeholder is never handed out. -/
structure Hides (s : Session) (hidden : Set Nat) : Prop where
  next : 0 < s.table.next
  handedOut : ∀ k ∈ hidden, 0 < k ∧ k < s.table.next
  visible : ∀ l ∈ s.remembered, s.Visible hidden l

variable {s t : Session} {hidden : Set Nat} {l : Label} {k : Nat}

theorem Visible.of_next (h : s.Visible hidden l) (hst : s.table.next ≤ t.table.next) :
    t.Visible hidden l :=
  fun k hk => ⟨Nat.lt_of_lt_of_le (h k hk).1 hst, (h k hk).2⟩

/-- A label that was handed out only now is no label from before. -/
theorem Visible.insert (h : s.Visible hidden l) (hk : s.table.next ≤ k) :
    s.Visible (insert k hidden) l := by
  intro n hn
  obtain ⟨hlt, hnot⟩ := h n hn
  refine ⟨hlt, fun hmem => ?_⟩
  rcases hmem with rfl | hmem
  · omega
  · exact hnot hmem

theorem Hides.mono {fewer : Set Nat} (h : s.Hides hidden) (hsub : fewer ⊆ hidden) :
    s.Hides fewer :=
  ⟨h.next, fun k hk => h.handedOut k (hsub hk), fun l hl k hk =>
    ⟨(h.visible l hl k hk).1, fun hmem => (h.visible l hl k hk).2 (hsub hmem)⟩⟩

theorem Hides.visible_placeholder (h : s.Hides hidden) : s.Visible hidden .placeholder := by
  intro k hk
  obtain rfl := Label.number.inj hk
  exact ⟨h.next, fun hmem => absurd (h.handedOut 0 hmem).1 (Nat.lt_irrefl 0)⟩

theorem Hides.fact (h : s.Hides hidden) (f : Trap.Fact) :
    ((Event.fact f).step s).Hides hidden := by
  have htable : ((Event.fact f).step s).table = s.table := Event.step_table _ s
  have hremembered : ((Event.fact f).step s).remembered = s.remembered := by
    rw [remembered, htable]
    rfl
  refine ⟨htable ▸ h.next, htable ▸ h.handedOut, fun l hl => ?_⟩
  exact (h.visible l (hremembered ▸ hl)).of_next (htable ▸ Nat.le_refl _)

theorem Hides.target (h : s.Hides hidden) (hl : s.Visible hidden l) (path : String)
    (lines : Option LineTable) : ((Event.target ⟨path, l, lines⟩).step s).Hides hidden := by
  have hvisible := h.visible
  simp only [remembered, List.forall_mem_cons] at hvisible
  refine ⟨h.next, h.handedOut, ?_⟩
  simp only [remembered, List.forall_mem_cons]
  exact ⟨hl, hvisible.2⟩

theorem Hides.fresh (h : s.Hides hidden) :
    (Event.fresh.step s).Hides (insert s.table.next hidden) := by
  have htable : (Event.fresh.step s).table = s.table.fresh.2 := Event.step_table _ s
  have hnext : (Event.fresh.step s).table.next = s.table.next + 1 := by rw [htable]; rfl
  have hremembered : (Event.fresh.step s).remembered = s.remembered := by
    rw [remembered, htable]
    rfl
  have hpositive := h.next
  refine ⟨by omega, fun k hk => ?_, fun l hl => ?_⟩
  · rcases hk with rfl | hk
    · omega
    · have := h.handedOut k hk
      omega
  · exact ((h.visible l (hremembered ▸ hl)).insert (Nat.le_refl _)).of_next (by omega)

end Session

/-! ## Code that is not told of hidden labels -/

namespace Scope

/-- The scope of an extraction that begins when the next label is `base`, and is not told
of the hidden ones. -/
def untold (hidden : Set Nat) (base : Nat) : Scope where
  given _ l := l = .placeholder ∨ ∀ k, l = .number k → k < base ∧ k ∉ hidden
  base := base
  errors := 0
  letter _ := True
  relation _ := True
  given_mono _ _ _ _ h := h
  given_placeholder _ _ := .inl rfl
  letter_of_ne _ _ := trivial
  relation_of_notMem _ _ := trivial

variable {hidden : Set Nat} {p : Program} {s t : Session} {l : Label}

theorem untold_spells {base : Nat} (s : Session) (text : String) :
    (untold hidden base).Spells s text := Letters.spells fun _ _ => trivial

theorem untold_writesCode {base : Nat} : (untold hidden base).WritesCode := fun _ _ => trivial

theorem untold_allows (p : Program) {base : Nat} : (untold hidden base).Allows p :=
  ⟨fun _ _ _ _ => trivial, .inl rfl, .inl rfl⟩

theorem untold_reads (p : Program) (e : Expr) {base : Nat} : (untold hidden base).Reads p e :=
  .inl rfl

theorem untold_readsAll (p : Program) (es : List Expr) {base : Nat} :
    (untold hidden base).ReadsAll p es := fun e _ => untold_reads p e

theorem untold_covers (p : Program) {base : Nat} (typeFuel : Nat) :
    (untold hidden base).Covers p (projection typeFuel) :=
  covers_projection (untold_allows p) typeFuel

theorem untold_coversWalk (p : Program) {base : Nat} (typeFuel walkFuel : Nat) :
    (untold hidden base).CoversWalk p (walk (projection typeFuel) walkFuel) :=
  coversWalk_walk untold_writesCode (untold_allows p) (untold_covers p typeFuel) walkFuel

theorem knows_of_visible (h : s.Visible hidden l) : (untold hidden s.table.next).Knows s l :=
  .inl (.inr h)

/-- What is known later on was handed out, and not hidden. -/
theorem visible_of_knows (hs : s.Hides hidden) (hst : s.table.next ≤ t.table.next)
    (h : (untold hidden s.table.next).Knows t l) : t.Visible hidden l := by
  rcases h with (rfl | h) | ⟨n, rfl, hn, hlt⟩
  · exact hs.visible_placeholder.of_next hst
  · exact Session.Visible.of_next (s := s) h hst
  · intro k hk
    obtain rfl := Label.number.inj hk
    exact ⟨hlt, fun hmem => absurd (hs.handedOut n hmem).2 (Nat.not_lt.mpr hn)⟩

theorem sound_of_hides (h : s.Hides hidden) : (untold hidden s.table.next).Sound s := by
  have hvisible := h.visible
  simp only [Session.remembered, List.forall_mem_cons, List.forall_mem_append,
    List.forall_mem_map] at hvisible
  exact ⟨Nat.le_refl _, Nat.zero_le _, fun e he => knows_of_visible (hvisible.2.1.1 e he),
    knows_of_visible hvisible.1, fun e he => knows_of_visible (hvisible.2.1.2 e he),
    fun e he => knows_of_visible (hvisible.2.2 e he)⟩

theorem hides_of_sound (hs : s.Hides hidden) (h : (untold hidden s.table.next).Sound t) :
    t.Hides hidden := by
  have hst : s.table.next ≤ t.table.next := h.base
  have hvisible {l : Label} := visible_of_knows (l := l) hs hst
  refine ⟨Nat.lt_of_lt_of_le hs.next hst, fun k hk => ⟨(hs.handedOut k hk).1,
    Nat.lt_of_lt_of_le (hs.handedOut k hk).2 hst⟩, ?_⟩
  simp only [Session.remembered, List.forall_mem_cons, List.forall_mem_append,
    List.forall_mem_map]
  exact ⟨hvisible h.target, ⟨fun e he => hvisible (h.bound e he),
    fun e he => hvisible (h.locals e he)⟩, fun e he => hvisible (h.loops e he)⟩

end Scope

/-! ## What is written meanwhile -/

namespace Session

open Trap

/-- Between `s` and `t` the lines were written. Under labels that are hidden, or not handed out
yet, they put no row but one in the slot at most. -/
structure Sits (hidden : Set Nat) (slot : Slot) (s t : Session) (ls : List Line) : Prop where
  wrote : s.Wrote t ls
  next : s.table.next ≤ t.table.next
  hides : t.Hides hidden
  seat : ∃ seat : Option Row, children slot.parent ls = seat.toList ∧
    ∀ r ∈ seat, r.index = slot.index
  others : ∀ k, k ∈ hidden ∨ t.table.next ≤ k → .number k ≠ slot.parent →
    children (.number k) ls = []

variable {p : Program} {hidden : Set Nat} {slot : Slot} {s t u : Session} {ls : List Line}

theorem rows_of_admits (hs : s.Hides hidden) (hst : s.table.next ≤ t.table.next)
    {es : List Event} (h : (Scope.untold hidden s.table.next).AdmitsAll t es) :
    ∀ r ∈ (Event.linesOf es t).filterMap Line.row?, (Event.run es t).Visible hidden r.parent := by
  induction es generalizing t with
  | nil => exact fun r hr => absurd hr List.not_mem_nil
  | cons e es ih =>
    have hnext := next_step e t
    have hrest := ih (Nat.le_trans hst hnext) h.2
    have hlast : (e.step t).table.next ≤ (Event.run es (e.step t)).table.next :=
      Event.run_table_next es _
    intro r hr
    rw [Event.linesOf, List.filterMap_append] at hr
    rcases List.mem_append.mp hr with hr | hr
    · cases e with
      | fact f =>
        obtain ⟨l, hl, hrow⟩ := List.mem_filterMap.mp hr
        obtain rfl := List.mem_singleton.mp hl
        have hknows := Scope.KnowsAll.of_mem h.1.2 (Fact.parent_mem_args hrow)
        exact (Scope.visible_of_knows hs hst hknows).of_next (Nat.le_trans hnext hlast)
      | lookup key asker =>
        simp only [Event.lines] at hr
        split at hr <;> simp [Line.row?] at hr
      | report problem location =>
        rw [Event.lines, (diagnostic_silent _ _ _).1] at hr
        cases hr
      | _ => simp [Event.lines, Line.row?] at hr
    · exact hrest r hr

/-- Code that is not told of hidden labels puts no row under them. -/
theorem lines_of_leads (hs : s.Hides hidden) (hst : s.table.next ≤ t.table.next)
    (h : (Scope.untold hidden s.table.next).Leads p t u) :
    ∃ ls, t.Wrote u ls ∧ ∀ r ∈ ls.filterMap Line.row?, u.Visible hidden r.parent := by
  obtain ⟨⟨es, hadmits, -, rfl⟩, -⟩ := h
  exact ⟨_, Event.run_wrote es t, rows_of_admits hs hst hadmits⟩

/-- Actions that are not told of the hidden labels keep them hidden. -/
theorem hides_of_does {α : Type} {m : Extract α} {Q : α → Session → Prop} {a : α}
    (hs : s.Hides hidden) (hm : (Scope.untold hidden s.table.next).Does p s m Q)
    (he : Extract.Ends p s m a t) :
    t.Hides hidden ∧ s.table.next ≤ t.table.next ∧ Q a t := by
  have hsound := Scope.sound_of_hides hs
  obtain ⟨hleads, hq⟩ := hm hsound a t he
  exact ⟨Scope.hides_of_sound hs (hleads.sound hsound), hleads.before.next, hq⟩

/-- A new writer remembers the label of its own file only. -/
theorem hides_ofPath {sink : Trap.Sink} {path : String} {lines : Option LineTable}
    (hfile : s.file = .ofPath (.ofSink sink) path lines) (hlocals : s.locals = [])
    (hloops : s.openLoops = []) : s.Hides ∅ := by
  let start : Session :=
    { s with file := { writer := .ofSink sink, target := { path, label := .placeholder, lines } } }
  have hremembered : start.remembered = [.placeholder] := by
    rw [remembered, show start.locals = [] from hlocals, show start.openLoops = [] from hloops]
    rfl
  have hnext : start.table.next = LabelTable.first := rfl
  have hstart : start.Hides ∅ := by
    refine ⟨hnext ▸ by decide, nofun, fun l hl k hk => ⟨hnext ▸ ?_, nofun⟩⟩
    rw [hremembered, List.mem_singleton] at hl
    obtain rfl := Label.number.inj (hl.symm.trans hk)
    decide
  obtain ⟨label, t, hlabel⟩ : ∃ label t,
      Extract.Ends default start (Extract.onWriter (·.fileLabel path true)) label t :=
    ⟨_, _, Extract.ends_onWriter.mpr ⟨rfl, rfl⟩⟩
  obtain ⟨ht, hle, hknows⟩ :=
    hides_of_does hstart (Scope.does_fileLabel fun _ _ => trivial) hlabel
  have hopen : (Event.target ⟨path, label, lines⟩).step t = s := by
    obtain ⟨rfl, rfl⟩ := Extract.ends_onWriter.mp hlabel
    obtain ⟨file, _⟩ := s
    obtain rfl := hfile
    rfl
  exact hopen ▸ ht.target (Scope.visible_of_knows hstart hle hknows) path lines

/-- An operation keeps hidden labels hidden if it is told of none of them. -/
theorem hides_perform (typeFuel walkFuel : Nat) {op : Operation} (hs : s.Hides hidden)
    (hop : (Scope.untold hidden s.table.next).KnowsOperation s op)
    (he : Extract.Ends p s (op.perform (walk (projection typeFuel) walkFuel)) () t) :
    t.Hides hidden ∧ s.table.next ≤ t.table.next := by
  have hdoes := Scope.does_perform Scope.untold_writesCode rfl (Scope.untold_allows p)
    (Scope.untold_coversWalk p typeFuel walkFuel) hop
  obtain ⟨ht, hle, -⟩ := hides_of_does hs hdoes he
  exact ⟨ht, hle⟩

/-- So do any operations in any order, with the labels that were visible at first. -/
theorem hides_run (typeFuel walkFuel : Nat) {ops : List Operation} (hs : s.Hides hidden)
    (hops : ∀ op ∈ ops, (Scope.untold hidden s.table.next).KnowsOperation s op)
    (he : Extract.Ends p s (Operation.run (walk (projection typeFuel) walkFuel) ops) () t) :
    t.Hides hidden ∧ s.table.next ≤ t.table.next := by
  induction ops generalizing s with
  | nil =>
    obtain ⟨-, rfl⟩ := Extract.ends_pure.mp he
    exact ⟨hs, Nat.le_refl _⟩
  | cons op ops ih =>
    obtain ⟨hop, hlater⟩ := List.forall_mem_cons.mp hops
    obtain ⟨_, middle, hfirst, hrest⟩ := Extract.ends_bind.mp he
    obtain ⟨hmiddle, hle⟩ := hides_perform typeFuel walkFuel hs hop hfirst
    have hknows (l : Label) (hl : (Scope.untold hidden s.table.next).Knows s l) :
        (Scope.untold hidden middle.table.next).Knows middle l :=
      Scope.knows_of_visible ((Scope.visible_of_knows hs (Nat.le_refl _) hl).of_next hle)
    obtain ⟨ht, hmore⟩ := ih hmiddle (fun op h => (hlater op h).imp hknows) hrest
    exact ⟨ht, Nat.le_trans hle hmore⟩

/-- Every session that operations lead to from a new writer remembers only labels that were
handed out. -/
theorem hides_of_run (typeFuel walkFuel : Nat) {sink : Trap.Sink} {path : String}
    {lines : Option LineTable} {ops : List Operation}
    (hfile : s.file = .ofPath (.ofSink sink) path lines) (hlocals : s.locals = [])
    (hloops : s.openLoops = [])
    (hops : ∀ op ∈ ops, (Scope.untold ∅ s.table.next).KnowsOperation s op)
    (he : Extract.Ends p s (Operation.run (walk (projection typeFuel) walkFuel) ops) () t) :
    t.Hides ∅ :=
  (hides_run typeFuel walkFuel (hides_ofPath hfile hlocals hloops) hops he).1

theorem sits_of_seated {b : Nat} (hb : b ∈ hidden) (hslot : slot.parent = .number b)
    (hs : s.Hides hidden) (h : (Scope.untold hidden s.table.next).Seated p slot s t) :
    ∃ ls, Sits hidden slot s t ls := by
  have hides : t.Hides hidden := Scope.hides_of_sound hs (h.sound (Scope.sound_of_hides hs))
  have habsent {ls : List Line} {u : Session} (hut : u.table.next ≤ t.table.next)
      (hrows : ∀ r ∈ ls.filterMap Line.row?, u.Visible hidden r.parent) (k : Nat)
      (hk : k ∈ hidden ∨ t.table.next ≤ k) : children (.number k) ls = [] := by
    refine children_eq_nil_iff.mpr fun r hr heq => ?_
    obtain ⟨hlt, hnot⟩ := hrows r hr k heq
    rcases hk with hk | hk
    · exact hnot hk
    · omega
  cases h with
  | empty h =>
    obtain ⟨ls, hwrote, hrows⟩ := lines_of_leads hs (Nat.le_refl _) h
    have hnone := habsent (Nat.le_refl _) hrows
    exact ⟨ls, hwrote, h.before.next, hides, ⟨none, hslot ▸ hnone b (.inl hb), by simp⟩,
      fun k hk _ => hnone k hk⟩
  | row u f before holds admits after =>
    obtain ⟨ls, hls, hrows⟩ := lines_of_leads hs (Nat.le_refl _) before
    have hnext := Scope.fact_next f u
    obtain ⟨ms, hms, krows⟩ := lines_of_leads hs (by rw [hnext]; exact before.before.next) after
    have hut : u.table.next ≤ t.table.next := hnext ▸ after.before.next
    obtain ⟨r, hr, hparent, hindex⟩ := row?_of_holds holds
    have hchildren (l : Label) : children l [Line.fact f] = if r.parent = l then [r] else [] := by
      simp only [children, List.filterMap_cons, List.filterMap_nil, Line.row?, hr]
      simp only [List.filter_cons, List.filter_nil, decide_eq_true_eq]
    refine ⟨ls ++ ([.fact f] ++ ms), hls.trans ((Event.step_wrote (.fact f) u).trans hms),
      Nat.le_trans before.before.next hut, hides, ⟨some r, ?_, ?_⟩, fun k hk hne => ?_⟩
    · rw [children_append, children_append, hchildren, if_pos hparent, hslot,
        habsent hut hrows b (.inl hb), habsent (Nat.le_refl _) krows b (.inl hb)]
      rfl
    · rintro _ ⟨⟩
      exact hindex
    · rw [children_append, children_append, hchildren, if_neg (hparent ▸ hne.symm),
        habsent hut hrows k hk, habsent (Nat.le_refl _) krows k hk]
      rfl

end Session

end IrFacts
