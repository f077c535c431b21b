import IrFacts.Proofs.Labels.Faithful
import IrFacts.Proofs.Run.Reading
import IrFacts.Proofs.Types.NormalForm
import Mathlib.Data.List.Basic

/-!
# Accounts

An account is kept of what an extraction does beside the marks that its walk
passes: a property of events and marks that holds of none, of what follows upon
each other, and of all that is calm. Calm are the facts, keys and problems that
the account does not care about; the others take place in a few operations only,
and these are looked at one by one for each account.

Certain keys are hidden. Facts that tell what a class is, where something is or
what it extends are never about the label of a hidden key, as far as they are
calm, and an action is gone through once and for all with that in view.
-/

set_option autoImplicit false

namespace IrFacts

namespace Session

def Open (hidden : String → Prop) (s : Session) (l : Label) : Prop :=
  ∀ n, l = .number n → n < s.table.next ∧ ∀ key, hidden key → s.table.find? key ≠ some l

/-- A session with a store in order, that remembers no label of a hidden key. -/
structure Tidy (hidden : String → Prop) (s : Session) : Prop where
  faithful : s.table.Faithful
  target : s.Open hidden s.file.target.label
  locals : ∀ e ∈ s.locals, s.Open hidden e.2

end Session

namespace Event

theorem linesOf_append (es fs : List Event) (s : Session) :
    linesOf (es ++ fs) s = linesOf es s ++ linesOf fs (run es s) := by
  induction es generalizing s with
  | nil => rfl
  | cons e es ih => simp [linesOf, run, ih]

/-- A key that gets its label in a run gets a number that was still free. -/
theorem run_find?_new {es : List Event} {s : Session} {key : String} {l : Label}
    (h : (run es s).table.find? key = some l) (hnew : s.table.find? key = none) :
    ∃ n, l = .number n ∧ s.table.next ≤ n := by
  induction es generalizing s with
  | nil =>
    rw [run, hnew] at h
    cases h
  | cons e es ih =>
    have hnext := onTable_next e s.table
    rw [← step_table] at hnext
    cases hk : (e.step s).table.find? key with
    | none =>
      obtain ⟨n, hl, hn⟩ := ih h hk
      exact ⟨n, hl, Nat.le_trans hnext hn⟩
    | some m =>
      obtain rfl : m = l := Option.some.inj ((run_find? es hk).symm.trans h)
      rw [step_table] at hk
      cases e with
      | lookup other asker =>
        by_cases hother : key = other
        · subst hother
          rw [onTable, LabelTable.find?_lookup_of_none hnew, if_pos rfl] at hk
          cases hk
          exact ⟨_, rfl, Nat.le_refl _⟩
        · rw [onTable, LabelTable.find?_lookup_of_ne _ hother, hnew] at hk
          cases hk
      | _ => cases hnew.symm.trans hk

end Event

namespace Session

variable {hidden : String → Prop} {s : Session} {l : Label}

theorem open_placeholder (h : s.table.Faithful) : s.Open hidden .placeholder := by
  intro n hn
  cases hn
  have hfirst : LabelTable.first ≤ s.table.next := h.first
  refine ⟨Nat.lt_of_lt_of_le (by decide) hfirst, fun key _ hkey => ?_⟩
  exact h.ne_placeholder hkey rfl

theorem Open.run (h : s.Open hidden l) (es : List Event) : (Event.run es s).Open hidden l := by
  intro n hn
  obtain ⟨hlt, hfree⟩ := h n hn
  refine ⟨Nat.lt_of_lt_of_le hlt (Event.run_table_next es s), fun key hkey hbound => ?_⟩
  cases hk : s.table.find? key with
  | some m => exact hfree key hkey (hk.trans ((Event.run_find? es hk).symm.trans hbound))
  | none =>
    obtain ⟨m, rfl, hm⟩ := Event.run_find?_new hbound hk
    cases hn
    exact absurd hlt (Nat.not_lt_of_le hm)

theorem open_of_find? (h : s.table.Faithful) {key : String} (hkey : ¬hidden key)
    (hbound : s.table.find? key = some l) : s.Open hidden l := by
  intro n hn
  subst hn
  obtain ⟨m, hm, -, hlt⟩ := h.bound key _ hbound
  cases hm
  refine ⟨hlt, fun other hother hsame => hkey ?_⟩
  rwa [h.distinct key other _ hbound hsame]

theorem open_fresh (h : s.table.Faithful) :
    (Event.fresh.step s).Open hidden (.number s.table.next) := by
  intro n hn
  cases hn
  rw [Event.step_table]
  exact ⟨Nat.lt_succ_self _, fun key _ hkey => h.find?_ne hkey rfl⟩

theorem Tidy.step (h : s.Tidy hidden) {e : Event}
    (htarget : ∀ t, e = .target t → s.Open hidden t.label)
    (hnamed : ∀ id l, e = .named id l → s.Open hidden l) : (e.step s).Tidy hidden := by
  have keep {l : Label} (hl : s.Open hidden l) : (e.step s).Open hidden l := hl.run [e]
  refine ⟨h.faithful.step e, ?_, ?_⟩
  · cases e with
    | target t => exact keep (htarget t rfl)
    | _ => exact keep h.target
  · intro b hb
    cases e with
    | named id l =>
      rcases List.mem_cons.mp hb with rfl | hb
      · exact keep (hnamed id l rfl)
      · exact keep (h.locals b hb)
    | _ => exact keep (h.locals b hb)

end Session

structure Account (p : Program) where
  /-- Keys that some operations only ask for. -/
  kept : String → Prop
  hidden : String → Prop
  grave : Problem → Prop
  Holds : Session → List Event → List Mark → Prop
  hidden_kept : ∀ key, hidden key → kept key
  kept_start : ∀ key, kept key → "class;".toList <+: key.toList ∨ "array;".toList <+: key.toList
  kept_end : ∀ key, kept key → key.toList.getLast? = some '\x7d'
  kept_class : ∀ id, ¬kept ("class;" ++ p.nameInKeys id)
  kept_file : ∀ file entry, p.file? file = some entry →
    ¬kept ("class;" ++ qualify entry.package (p.fileClassName entry))
  grave_missing : ∀ problem, grave problem → ∃ key, problem = .missingTypeParameter key
  nil : ∀ s, Holds s [] []
  append : ∀ {s es fs ms ns}, Holds s es ms → Holds (Event.run es s) fs ns →
    Holds s (es ++ fs) (ms ++ ns)
  fact : ∀ {s f}, f.relation ∉ Trap.countedRelations →
    (f.relation ∈ Trap.subjectRelations → ∀ l args, f.args = .label l :: args → s.Open hidden l) →
    Holds s [.fact f] []
  lookup : ∀ {s key}, ¬kept key → Holds s [.lookup key none] []
  report : ∀ {s problem place}, ¬grave problem → Holds s [.report problem place] []
  other : ∀ {s e}, (∀ f, e ≠ .fact f) → (∀ key asker, e ≠ .lookup key asker) →
    (∀ problem place, e ≠ .report problem place) → Holds s [e] []
  row : ∀ {s f}, f.relation ∈ Trap.rowRelations → Holds s [.fact f] [.row f.relation]
  reach : ∀ s id, Holds s [] [.reach id]
  mention : ∀ s scope type, Holds s [] [.mention scope type]
  borrow : ∀ s type, Holds s [] [.borrow type]

namespace Account

open Extract

variable {p : Program} (a : Account p) {s t u : Session} {α β : Type}

theorem missing_of_none (problem : Problem) (h : False) :
    ∃ key, problem = .missingTypeParameter key := h.elim

/-! ## Keys that are not kept -/

def Outside (start : String) : Prop :=
  ∀ front ∈ ["class;", "array;"],
    ¬front.toList <+: start.toList ∧ ¬start.toList <+: front.toList

instance (start : String) : Decidable (Outside start) :=
  inferInstanceAs (Decidable (∀ front ∈ ["class;", "array;"], _))

theorem not_kept_of_start {start key : String} (h : Outside start)
    (hkey : start.toList <+: key.toList) : ¬a.kept key := by
  intro hkept
  have apart (front : String) (hfront : front ∈ ["class;", "array;"])
      (hstarts : front.toList <+: key.toList) : False := by
    rcases List.prefix_or_prefix_of_prefix hstarts hkey with hp | hp
    · exact (h front hfront).1 hp
    · exact (h front hfront).2 hp
  rcases a.kept_start key hkept with hclass | harray
  · exact apart "class;" (by simp) hclass
  · exact apart "array;" (by simp) harray

theorem not_kept {start : String} (h : Outside start) (rest : String) : ¬a.kept (start ++ rest) :=
  a.not_kept_of_start h (by rw [String.toList_append]; exact List.prefix_append _ _)

theorem not_kept_of_end {front back : String} (hback : back.toList ≠ [])
    (h : back.toList.getLast? ≠ some '\x7d') : ¬a.kept (front ++ back) := by
  intro hkept
  have hend := a.kept_end _ hkept
  rw [String.toList_append, List.getLast?_append_of_ne_nil _ hback] at hend
  exact h hend

theorem not_kept_fileKey (path : Path) {key : String} (h : path.IsKey key) : ¬a.kept key := by
  rcases h with rfl | ⟨folder, -, rfl⟩
  · exact a.not_kept_of_end (by decide) (by decide)
  · exact a.not_kept_of_end (by decide) (by decide)

theorem not_grave {problem : Problem} (h : ∀ key, problem ≠ .missingTypeParameter key) :
    ¬a.grave problem := by
  intro hgrave
  obtain ⟨key, hkey⟩ := a.grave_missing problem hgrave
  exact h key hkey

/-! ## Actions under an account -/

/-- The session `t` comes out of `s` by events that the account covers, while the
walk passes the items. -/
structure Passes (s : Session) (items : List WalkItem) (t : Session) : Prop where
  covered : ∃ es ms, Event.run es s = t ∧ Unfolds p items ms ∧ a.Holds s es ms
  tidy : t.Tidy a.hidden
  function : t.currentFunction = s.currentFunction

/-- Every completed run of the action passes the items, and `Q` holds after it. -/
def Walks (s : Session) (m : Extract α) (items : List WalkItem) (Q : α → Session → Prop) : Prop :=
  s.Tidy a.hidden → ∀ r t, Ends p s m r t → a.Passes s items t ∧ Q r t

/-- What a walk is not told of. -/
abbrev Quiet (s : Session) (m : Extract α) (Q : α → Session → Prop) : Prop := a.Walks s m [] Q

abbrev Any {α : Type} : α → Session → Prop := fun _ _ => True

abbrev Told (l : Label) (t : Session) : Prop := t.Open a.hidden l

variable {a}

theorem Passes.refl (h : s.Tidy a.hidden) : a.Passes s [] s :=
  ⟨⟨[], [], rfl, .nil, a.nil s⟩, h, rfl⟩

theorem Passes.trans {items others : List WalkItem} (h : a.Passes s items t)
    (k : a.Passes t others u) : a.Passes s (items ++ others) u := by
  obtain ⟨⟨es, ms, rfl, hms, hes⟩, -, hf⟩ := h
  obtain ⟨⟨fs, ns, rfl, hns, hfs⟩, htidy, kf⟩ := k
  exact ⟨⟨es ++ fs, ms ++ ns, Event.run_append es fs s, hms.append hns, a.append hes hfs⟩, htidy,
    kf.trans hf⟩

theorem Passes.after {items : List WalkItem} (h : a.Passes s items t) (k : a.Passes t [] u) :
    a.Passes s items u := by
  simpa using h.trans k

@[grind →]
theorem Passes.told {items : List WalkItem} {l : Label} (h : a.Passes s items t)
    (hl : a.Told l s) : a.Told l t := by
  obtain ⟨⟨es, -, rfl, -⟩, -⟩ := h
  exact hl.run es

theorem Walks.imp {m : Extract α} {items : List WalkItem} {Q R : α → Session → Prop}
    (h : a.Walks s m items Q) (hi : ∀ r t, a.Passes s items t → Q r t → R r t) :
    a.Walks s m items R := by
  intro hs r t he
  obtain ⟨hst, hq⟩ := h hs r t he
  exact ⟨hst, hi r t hst hq⟩

theorem Walks.any {m : Extract α} {items : List WalkItem} {Q : α → Session → Prop}
    (h : a.Walks s m items Q) : a.Walks s m items Any :=
  h.imp fun _ _ _ _ => trivial

theorem Walks.and {m : Extract α} {items : List WalkItem} {Q : α → Session → Prop} {P : α → Prop}
    (h : a.Walks s m items Q) (hp : ∀ r t, Ends p s m r t → P r) :
    a.Walks s m items fun r t => P r ∧ Q r t := by
  intro hs r t he
  obtain ⟨hst, hq⟩ := h hs r t he
  exact ⟨hst, hp r t he, hq⟩

theorem Walks.of_eq {m : Extract α} {items others : List WalkItem} {Q : α → Session → Prop}
    (h : a.Walks s m items Q) (he : items = others) : a.Walks s m others Q := he ▸ h

theorem walks_bind {m : Extract α} {f : α → Extract β} {items others : List WalkItem}
    {Q : α → Session → Prop} {R : β → Session → Prop} (hm : a.Walks s m items Q)
    (hf : ∀ r t, a.Passes s items t → Q r t → a.Walks t (f r) others R) :
    a.Walks s (m >>= f) (items ++ others) R := by
  intro hs b u he
  obtain ⟨r, t, hr, hb⟩ := ends_bind.mp he
  obtain ⟨hst, hq⟩ := hm hs r t hr
  obtain ⟨htu, hr⟩ := hf r t hst hq hst.tidy b u hb
  exact ⟨hst.trans htu, hr⟩

theorem quiet_bind {m : Extract α} {f : α → Extract β} {items : List WalkItem}
    {Q : α → Session → Prop} {R : β → Session → Prop} (hm : a.Quiet s m Q)
    (hf : ∀ r t, a.Passes s [] t → Q r t → a.Walks t (f r) items R) :
    a.Walks s (m >>= f) items R :=
  walks_bind hm hf

theorem bind_quiet {m : Extract α} {f : α → Extract β} {items : List WalkItem}
    {Q : α → Session → Prop} {R : β → Session → Prop} (hm : a.Walks s m items Q)
    (hf : ∀ r t, a.Passes s items t → Q r t → a.Quiet t (f r) R) :
    a.Walks s (m >>= f) items R :=
  (walks_bind hm hf).of_eq (List.append_nil items)

theorem quiet_pure {r : α} {Q : α → Session → Prop} (h : Q r s) : a.Quiet s (pure r) Q := by
  intro hs b t he
  obtain ⟨rfl, rfl⟩ := ends_pure.mp he
  exact ⟨.refl hs, h⟩

theorem walks_read {f : Program → Extract β} {items : List WalkItem} {R : β → Session → Prop}
    (h : a.Walks s (f p) items R) : a.Walks s (read >>= f) items R :=
  fun hs b t he => h hs b t (ends_read_bind.mp he)

theorem walks_get {f : Session → Extract β} {items : List WalkItem} {R : β → Session → Prop}
    (h : s.Tidy a.hidden → a.Walks s (f s) items R) : a.Walks s (get >>= f) items R :=
  fun hs b t he => h hs hs b t (ends_get_bind.mp he)

theorem walks_throw {e : Stop} {items : List WalkItem} {Q : α → Session → Prop} :
    a.Walks s (throw e) items Q :=
  fun _ _ _ he => absurd he ends_throw

theorem walks_ite {c : Prop} [Decidable c] {m n : Extract α} {items : List WalkItem}
    {Q : α → Session → Prop} (hm : c → a.Walks s m items Q) (hn : ¬c → a.Walks s n items Q) :
    a.Walks s (if c then m else n) items Q := by
  split
  · next h => exact hm h
  · next h => exact hn h

theorem quiet_when {c : Prop} [Decidable c] {m : Extract Unit} (hm : c → a.Quiet s m Any) :
    a.Quiet s (if c then m else pure ()) Any :=
  walks_ite hm fun _ => quiet_pure trivial

theorem quiet_when_bind {c : Prop} [Decidable c] {m : Extract Unit} {f : Unit → Extract β}
    {items : List WalkItem} {R : β → Session → Prop} (hm : c → a.Quiet s m Any)
    (hf : ∀ t, a.Passes s [] t → a.Walks t (f ()) items R) :
    a.Walks s (if c then m >>= f else f ()) items R := by
  rw [when_bind]
  exact quiet_bind (quiet_when hm) fun _ t hst _ => hf t hst

theorem walks_forM {as : List α} {f : α → Extract PUnit} {items : α → List WalkItem}
    (h : ∀ b ∈ as, ∀ before t, a.Passes s before t → a.Walks t (f b) (items b) Any) :
    a.Walks s (as.forM f) (as.flatMap items) Any := by
  induction as generalizing s with
  | nil => exact quiet_pure trivial
  | cons b as ih =>
    intro hs
    refine walks_bind (h b (by simp) [] s (.refl hs)) (fun _ t hst _ => ?_) hs
    exact ih fun c hc before u htu => h c (by simp [hc]) _ u (hst.trans htu)

theorem quiet_forM {as : List α} {f : α → Extract PUnit}
    (h : ∀ b ∈ as, ∀ t, a.Passes s [] t → a.Quiet t (f b) Any) : a.Quiet s (as.forM f) Any := by
  induction as generalizing s with
  | nil => exact quiet_pure trivial
  | cons b as ih =>
    intro hs
    refine quiet_bind (h b (by simp) s (.refl hs)) (fun _ t hst _ => ?_) hs
    exact ih fun c hc u htu => h c (by simp [hc]) u (hst.trans htu)

theorem quiet_mapM {as : List α} {f : α → Extract β}
    (h : ∀ b ∈ as, ∀ t, a.Quiet t (f b) Any) : a.Quiet s (as.mapM f) Any := by
  induction as generalizing s with
  | nil =>
    rw [List.mapM_nil]
    exact quiet_pure trivial
  | cons b as ih =>
    rw [List.mapM_cons]
    refine quiet_bind (h b (by simp) s) fun _ t _ _ => ?_
    exact quiet_bind (ih fun c hc => h c (by simp [hc])) fun _ _ _ _ => quiet_pure trivial

theorem quiet_foldlM {as : List α} {f : β → α → Extract β} {b : β}
    (h : ∀ b, ∀ c ∈ as, ∀ t, a.Quiet t (f b c) Any) : a.Quiet s (as.foldlM f b) Any := by
  induction as generalizing s b with
  | nil => exact quiet_pure trivial
  | cons c as ih =>
    rw [List.foldlM_cons]
    refine quiet_bind (h b c (by simp) s) fun _ t _ _ => ?_
    exact ih fun b d hd => h b d (by simp [hd])

/-! ## Single events -/

theorem passes_event {e : Event} {m : List Mark} {items : List WalkItem} (hs : s.Tidy a.hidden)
    (h : a.Holds s [e] m) (hm : Unfolds p items m)
    (htarget : ∀ t, e = .target t → a.Told t.label s)
    (hnamed : ∀ id l, e = .named id l → a.Told l s) (hcurrent : ∀ f, e ≠ .current f) :
    a.Passes s items (e.step s) := by
  refine ⟨⟨[e], m, rfl, hm, h⟩, hs.step htarget hnamed, ?_⟩
  cases e with
  | current f => exact absurd rfl (hcurrent f)
  | _ => rfl

theorem quiet_modify {f : Session → Session} {e : Event} (hf : f s = e.step s)
    (h : a.Holds s [e] []) (htarget : ∀ t, e = .target t → a.Told t.label s)
    (hnamed : ∀ id l, e = .named id l → a.Told l s) (hcurrent : ∀ f, e ≠ .current f) :
    a.Quiet s (modify f : Extract PUnit) Any := by
  intro hs u t he
  rw [ends_modify.mp he, hf]
  exact ⟨passes_event hs h .nil htarget hnamed hcurrent, trivial⟩

theorem quiet_fact {f : Trap.Fact} (h : a.Holds s [.fact f] []) : a.Quiet s (write f) Any := by
  intro hs u t he
  rw [ends_write.mp he]
  exact ⟨passes_event hs h .nil nofun nofun nofun, trivial⟩

theorem quiet_writeAny {r : String} {args : List Trap.Arg} (hr : r ∉ Trap.countedRelations)
    (hsubject : r ∈ Trap.subjectRelations → ∀ l rest, args = .label l :: rest → a.Told l s) :
    a.Quiet s (write ⟨r, args⟩) Any := quiet_fact (a.fact hr hsubject)

theorem quiet_write {r : String} {args : List Trap.Arg}
    (h : r ∉ Trap.countedRelations ++ Trap.subjectRelations) : a.Quiet s (write ⟨r, args⟩) Any :=
  quiet_writeAny (fun hr => h (List.mem_append_left _ hr))
    fun hr => absurd (List.mem_append_right _ hr) h

theorem quiet_tell {r : String} {l : Label} {args : List Trap.Arg}
    (hr : r ∉ Trap.countedRelations) (hl : a.Told l s) :
    a.Quiet s (write ⟨r, .label l :: args⟩) Any :=
  quiet_writeAny hr fun _ m rest h => by
    cases h
    exact hl

theorem walks_row {r : String} {args : List Trap.Arg} (hr : r ∈ Trap.rowRelations) :
    a.Walks s (write ⟨r, args⟩) [rowItem r] Any := by
  intro hs u t he
  rw [ends_write.mp he]
  exact ⟨passes_event hs (a.row (f := ⟨r, args⟩) hr) (.mark .nil) nofun nofun nofun, trivial⟩

theorem Passes.mark {m : Mark} {items : List WalkItem} (hm : ∀ s, a.Holds s [] [m])
    (h : a.Passes s items t) : a.Passes s (.mark m :: items) t := by
  obtain ⟨⟨es, ms, rfl, hms, hes⟩, htidy, hf⟩ := h
  exact ⟨⟨es, m :: ms, rfl, .mark hms, a.append (hm s) hes⟩, htidy, hf⟩

theorem Walks.mark {m : Mark} {n : Extract α} {items : List WalkItem} {Q : α → Session → Prop}
    (hm : ∀ s, a.Holds s [] [m]) (h : a.Walks s n items Q) :
    a.Walks s n (.mark m :: items) Q := by
  intro hs r t he
  obtain ⟨hst, hq⟩ := h hs r t he
  exact ⟨hst.mark hm, hq⟩

theorem Walks.mentions {c : Context} {types : List IrType} {n : Extract α} {items : List WalkItem}
    {Q : α → Session → Prop} (h : a.Walks s n items Q) :
    a.Walks s n (c.mentions types ++ items) Q := by
  induction types with
  | nil => exact h
  | cons type types ih => exact ih.mark fun s => a.mention s c.scope type

theorem quiet_fresh : a.Quiet s fresh a.Told := by
  intro hs l t he
  obtain ⟨rfl, rfl⟩ := ends_fresh.mp he
  refine ⟨passes_event hs (a.other nofun nofun nofun) .nil nofun nofun nofun, ?_⟩
  exact Session.open_fresh hs.faithful

theorem quiet_find? {key : String} :
    a.Quiet s (find? key) fun found t => t = s ∧ found = s.table.find? key := by
  intro hs found t he
  obtain ⟨rfl, rfl⟩ := ends_find?.mp he
  exact ⟨.refl hs, rfl, rfl⟩

theorem passes_lookup {key : String} (hs : s.Tidy a.hidden) (hk : ¬a.kept key) :
    a.Passes s [] ((Event.lookup key none).step s) :=
  passes_event hs (a.lookup hk) .nil nofun nofun nofun

theorem told_of_bound (hs : s.Tidy a.hidden) {key : String} {l : Label} (hk : ¬a.kept key)
    (hl : s.table.find? key = some l) : a.Told l s :=
  Session.open_of_find? hs.faithful (fun hidden => hk (a.hidden_kept key hidden)) hl

theorem find?_lookup (s : Session) (key : String) :
    ((Event.lookup key none).step s).table.find? key =
      some (s.file.writer.lookup key).1.label := by
  rw [Event.step_table, Event.onTable, LabelTable.find?_lookup]
  change some (s.file.writer.labels.lookup key).1.label = _
  rw [Trap.Writer.lookup]
  rcases s.file.writer.labels.lookup key with ⟨_ | _, _⟩ <;> rfl

theorem quiet_lookup {key : String} (hk : ¬a.kept key) :
    a.Quiet s (onWriter (·.lookup key)) fun found t => a.Told found.label t := by
  intro hs found t he
  obtain ⟨rfl, rfl⟩ := (ends_lookup none).mp he
  have hst := passes_lookup hs hk
  exact ⟨hst, told_of_bound hst.tidy hk (find?_lookup s key)⟩

theorem quiet_labelWith {key : String} {define : Label → Extract Unit} (hk : ¬a.kept key)
    (hd : ∀ l t, a.Passes s [] t → a.Told l t → a.Quiet t (define l) Any) :
    a.Quiet s (labelWith key define) a.Told := by
  refine quiet_bind (quiet_lookup hk) fun found t hst hl => ?_
  cases found with
  | existing l => exact quiet_pure hl
  | created l => exact quiet_bind (hd l t hst hl) fun _ u htu _ => quiet_pure (htu.told hl)

theorem quiet_labelFor {key : String} (hk : ¬a.kept key) : a.Quiet s (labelFor key) a.Told := by
  rw [labelFor_eq]
  exact quiet_labelWith hk fun _ _ _ _ => quiet_pure trivial

theorem quiet_reportAt {problem : Problem} {place : Label} (h : ¬a.grave problem) :
    a.Quiet s (reportAt problem place) Any := by
  intro hs u t he
  rw [ends_reportAt.mp he]
  exact ⟨passes_event hs (a.report h) .nil nofun nofun nofun, trivial⟩

theorem quiet_schedule (id : DeclId) : a.Quiet s (schedule id) Any := by
  intro hs u t he
  rw [(ends_schedule none).mp he]
  exact ⟨passes_event hs (a.other nofun nofun nofun) .nil nofun nofun nofun, trivial⟩

/-! ## Files and places -/

theorem quiet_locationIn (file : Label) (r : Trap.Region) :
    a.Quiet s (onFile (·.locationIn file r)) Any := by
  rw [locationIn_eq]
  refine (quiet_labelWith ?_ fun _ _ _ _ => quiet_write (by decide)).any
  simp only [Trap.Region.key, String.append_assoc]
  exact a.not_kept (by decide) _

theorem quiet_wholeFile : a.Quiet s wholeFile Any := by
  rw [wholeFile_eq]
  exact walks_get fun _ => quiet_locationIn _ _

theorem quiet_unknownLocation : a.Quiet s unknownLocation Any := by
  rw [unknownLocation_eq, unknownFile_eq]
  refine quiet_bind (quiet_labelWith ?_ fun _ _ _ _ => quiet_write (by decide))
    fun _ _ _ _ => quiet_locationIn _ _
  exact a.not_kept_fileKey (Path.mk "") (Or.inl rfl)

theorem quiet_location (span : Span) : a.Quiet s (location span) Any := by
  rw [location_eq]
  refine walks_get fun _ => ?_
  unfold placeIn
  split
  · exact quiet_locationIn _ _
  · refine walks_ite (fun _ => quiet_unknownLocation) fun _ => ?_
    split
    · exact quiet_locationIn _ _
    · exact walks_throw

theorem quiet_locate {entity : Label} (span : Span) (h : a.Told entity s) :
    a.Quiet s (locate entity span) Any :=
  quiet_bind (quiet_location span) fun _ _ hst _ => quiet_tell (by decide) (hst.told h)

theorem quiet_complain {problem : Problem}
    (h : ∀ key, problem ≠ .missingTypeParameter key) : a.Quiet s (complain problem) Any :=
  quiet_bind quiet_unknownLocation fun _ _ _ _ => quiet_reportAt (a.not_grave h)

theorem quiet_complainAt {problem : Problem} (h : ∀ key, problem ≠ .missingTypeParameter key)
    (span : Span) : a.Quiet s (complainAt problem span) Any :=
  quiet_bind (quiet_location span) fun _ _ _ _ => quiet_reportAt (a.not_grave h)

theorem quiet_enterFolders (path : Path) {child : Label} {folders : List Path}
    (h : ∀ folder ∈ folders, folder ∈ path.parents) :
    a.Quiet s (onWriter fun w => ((), w.enterFolders child folders)) Any := by
  induction folders generalizing s child with
  | nil =>
    rw [enterFolders_nil]
    exact quiet_pure trivial
  | cons folder rest ih =>
    rw [enterFolders_cons]
    refine walks_ite (fun _ => quiet_pure trivial) fun _ => ?_
    have hkey := a.not_kept_fileKey path (Or.inr ⟨folder, h folder (by simp), rfl⟩)
    refine quiet_bind (quiet_lookup hkey) fun found t _ _ => ?_
    cases found with
    | existing l => exact quiet_write (by decide)
    | created l =>
      refine quiet_bind (quiet_write (by decide)) fun _ _ _ _ => ?_
      exact quiet_bind (quiet_write (by decide)) fun _ _ _ _ => ih fun q hq => h q (by simp [hq])

theorem quiet_fileLabel (text : String) (populate : Bool) :
    a.Quiet s (onWriter (·.fileLabel text populate)) a.Told := by
  rw [fileLabel_eq]
  refine quiet_labelWith (a.not_kept_fileKey (Path.mk text) (Or.inl rfl))
    fun l t _ _ => quiet_when fun _ => ?_
  exact quiet_bind (quiet_write (by decide)) fun _ _ _ _ =>
    quiet_enterFolders (Path.mk text) fun _ h => h

theorem quiet_retarget (path : String) (lines : Option LineTable) (populate : Bool) :
    a.Quiet s (onFile (·.retarget path lines populate)) fun saved t => a.Told saved.label t := by
  intro hs saved t he
  obtain ⟨rfl, label, t, hl, rfl⟩ := ends_retarget.mp he
  obtain ⟨hst, hlabel⟩ := quiet_fileLabel path populate hs label t hl
  have htarget : a.Passes t [] ((Event.target { path, label, lines }).step t) := by
    refine passes_event hst.tidy (a.other nofun nofun nofun) .nil ?_ nofun nofun
    intro target h
    cases h
    exact hlabel
  exact ⟨hst.after htarget, htarget.told (hst.told hs.target)⟩

theorem quiet_restore {saved : Trap.Target} (h : a.Told saved.label s) :
    a.Quiet s (onFile fun file => ((), file.restore saved)) Any := by
  intro hs u t he
  rw [ends_restore.mp he]
  refine ⟨passes_event hs (a.other nofun nofun nofun) .nil ?_ nofun nofun, trivial⟩
  intro target ht
  cases ht
  exact h

theorem quiet_inFile {path : String} {lines : Option LineTable} {populate : Bool}
    {action : Extract α} (ha : ∀ t, a.Passes s [] t → a.Quiet t action Any) :
    a.Quiet s (do
      let saved ← onFile (·.retarget path lines populate)
      let result ← action
      onFile fun file => ((), file.restore saved)
      return result) Any :=
  quiet_bind (quiet_retarget path lines populate) fun _ _ hst hsaved =>
    quiet_bind (ha _ hst) fun _ _ htu _ =>
      quiet_bind (quiet_restore (htu.told hsaved)) fun _ _ _ _ => quiet_pure trivial

theorem quiet_inFileOf {id : DeclId} {populate : Bool} {action : Extract α}
    (ha : ∀ t, a.Passes s [] t → a.Quiet t action Any) :
    a.Quiet s (inFileOf id populate action) Any := by
  refine walks_read ?_
  dsimp only
  split
  · exact quiet_inFile ha
  · exact quiet_inFile ha

end Account

end IrFacts
