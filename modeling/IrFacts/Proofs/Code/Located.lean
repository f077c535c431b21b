import IrFacts.Proofs.Code.Hidden
import IrFacts.Proofs.Run.Reading
import Mathlib.Data.List.Nodup
import Mathlib.Data.Set.Insert

/-!
# Rows of expressions, and their places

The row of an expression is written under a label of its own, and located when it is
written. Only the row's own writer is told of this label as something to locate, so it is
located once. Type arguments of calls are rows as well, and are not located at all.
-/

set_option autoImplicit false

namespace IrFacts

/-! ## What the lines tell -/

namespace RowKind

def isExpression : RowKind → Bool
  | .expr _ => true
  | _ => false

/-- The rows under which type accesses are type arguments: an access to a method, and the
access to a type that is constructed. -/
def takesTypes : RowKind → Bool
  | .expr .methodAccess => true
  | .expr .typeAccess => true
  | _ => false

theorem takesTypes_iff {kind : Trap.ExprKind} :
    (RowKind.expr kind).takesTypes ↔ kind.TakesTypes := by
  constructor
  · intro h
    unfold takesTypes at h
    split at h
    · next he => exact .inl (RowKind.expr.inj he)
    · next he => exact .inr (RowKind.expr.inj he)
    · cases h
  · rintro (rfl | rfl) <;> rfl

end RowKind

namespace Trap

def mappingRelations : List String := ["exprs", "hasLocation"]

def Fact.located? (f : Fact) : Option Label :=
  if f.relation = "hasLocation" then
    match f.args with
    | [.label entity, .label _] => some entity
    | _ => none
  else none

def Line.located? : Line → Option Label
  | .fact f => f.located?
  | _ => none

/-- The entities that are given places, each as often as it is given one. -/
def located (ls : List Line) : List Label := ls.filterMap Line.located?

def expressions (ls : List Line) : List Row :=
  (ls.filterMap Line.row?).filter (·.kind.isExpression)

def expressionIds (ls : List Line) : List Label := (expressions ls).map (·.id)

/-- The row is an access to a type that a call has as an argument. -/
def IsTypeArgument (rows : List Row) (r : Row) : Prop :=
  r.kind = .expr .typeAccess ∧ ∃ q ∈ rows, q.id = r.parent ∧ q.kind.takesTypes

instance (rows : List Row) (r : Row) : Decidable (IsTypeArgument rows r) :=
  inferInstanceAs (Decidable (_ ∧ ∃ q ∈ rows, q.id = r.parent ∧ q.kind.takesTypes))

variable {ls ms : List Line} {l : Label} {r : Row}

theorem located_append (ls ms : List Line) : located (ls ++ ms) = located ls ++ located ms :=
  List.filterMap_append

theorem expressions_append (ls ms : List Line) :
    expressions (ls ++ ms) = expressions ls ++ expressions ms := by
  simp only [expressions, List.filterMap_append, List.filter_append]

theorem expressionIds_append (ls ms : List Line) :
    expressionIds (ls ++ ms) = expressionIds ls ++ expressionIds ms := by
  simp only [expressionIds, expressions_append, List.map_append]

theorem mem_expressionIds (h : r ∈ expressions ls) : r.id ∈ expressionIds ls :=
  List.mem_map_of_mem h

@[simp] theorem expressions_exprs (id type parent : Label) (kind : ExprKind) (index : Int) :
    expressions [.fact (.exprs id kind type parent index)] =
      [⟨.expr kind, id, parent, index⟩] := by
  simp [expressions, Line.row?, Fact.row?_exprs, RowKind.isExpression]

theorem expressions_of_ne {f : Fact} (h : f.relation ≠ "exprs") : expressions [.fact f] = [] := by
  refine List.filter_eq_nil_iff.mpr fun r hr => ?_
  obtain ⟨l, hl, hr⟩ := List.mem_filterMap.mp hr
  obtain rfl := List.mem_singleton.mp hl
  simp only [Line.row?, Fact.row?, if_neg h] at hr
  split at hr
  · split at hr
    · obtain ⟨k, -, rfl⟩ := Option.map_eq_some_iff.mp hr
      simp [RowKind.isExpression]
    · cases hr
  · split at hr
    · split at hr
      · cases hr
        simp [RowKind.isExpression]
      · cases hr
    · cases hr

@[simp] theorem located_hasLocation (entity place : Label) :
    located [.fact (.hasLocation entity place)] = [entity] := by
  simp [located, Line.located?, Fact.located?, Fact.hasLocation]

theorem located_of_ne {f : Fact} (h : f.relation ≠ "hasLocation") : located [.fact f] = [] := by
  simp [located, Line.located?, Fact.located?, h]

theorem Fact.eq_of_located? {r : String} {entity : Label} {args : List Arg}
    (h : (⟨r, .label entity :: args⟩ : Fact).located? = some l) : l = entity := by
  simp only [Fact.located?] at h
  split at h
  · split at h
    · next heq =>
      cases h
      injection heq with hfirst
      exact (Arg.label.inj hfirst).symm
    · cases h
  · cases h

theorem Fact.located?_mem_args {f : Fact} (h : f.located? = some l) : .label l ∈ f.args := by
  obtain ⟨relation, args⟩ := f
  simp only [Fact.located?] at h
  split at h
  · split at h
    · cases h
      exact List.mem_cons_self
    · cases h
  · cases h

end Trap

open Trap

/-! ## Between two sessions -/

namespace Session

/-- Between `s` and `t` these rows of expressions were written, and of the hidden labels these
were located. -/
structure Draws (hidden : Set Nat) (s t : Session) (rows : List Row) (places : List Nat) :
    Prop where
  next : s.table.next ≤ t.table.next
  hides : t.Hides hidden
  lines : ∃ ms, s.Wrote t ms ∧ expressions ms = rows ∧ (∀ l ∈ located ms, t.Old l) ∧
    ∀ k ∈ hidden, (located ms).count (.number k) = places.count k

variable {p : Program} {hidden : Set Nat} {s t v : Session} {rows rows' : List Row}
  {places places' : List Nat} {l : Label}

theorem Old.of_next (h : s.Old l) (hst : s.table.next ≤ t.table.next) : t.Old l :=
  fun k hk => Nat.lt_of_lt_of_le (h k hk) hst

theorem Draws.trans (h : s.Draws hidden t rows places) (k : t.Draws hidden v rows' places') :
    s.Draws hidden v (rows ++ rows') (places ++ places') := by
  obtain ⟨hst, -, ms, hms, rfl, hold, hcount⟩ := h
  obtain ⟨htv, hides, ns, hns, rfl, kold, kcount⟩ := k
  refine ⟨Nat.le_trans hst htv, hides, ms ++ ns, hms.trans hns, expressions_append ms ns, ?_, ?_⟩
  · rw [located_append]
    exact List.forall_mem_append.mpr ⟨fun l hl => (hold l hl).of_next htv, kold⟩
  · intro j hj
    rw [located_append, List.count_append, List.count_append, hcount j hj, kcount j hj]

theorem draws_write (hs : s.Hides hidden) {r : String} {args : List Arg} {u : Unit}
    (hr : r ∉ mappingRelations) (he : Extract.Ends p s (Extract.write ⟨r, args⟩) u t) :
    s.Draws hidden t [] [] := by
  obtain rfl := Extract.ends_write.mp he
  simp only [mappingRelations, List.mem_cons, List.not_mem_nil, or_false, not_or] at hr
  have hplaces : located [.fact ⟨r, args⟩] = [] := located_of_ne hr.2
  refine ⟨Nat.le_of_eq (Scope.fact_next _ s).symm, hs.fact _, [.fact _],
    Event.step_wrote (.fact _) s, expressions_of_ne hr.1, ?_, ?_⟩ <;>
    simp [hplaces]

theorem draws_row (hs : s.Hides hidden) {id type parent : Label} {kind : Trap.ExprKind}
    {index : Int} {u : Unit}
    (he : Extract.Ends p s (Extract.write (.exprs id kind type parent index)) u t) :
    s.Draws hidden t [⟨.expr kind, id, parent, index⟩] [] := by
  obtain rfl := Extract.ends_write.mp he
  have hnone : located [.fact (.exprs id kind type parent index)] = [] :=
    located_of_ne (by simp [Fact.exprs])
  refine ⟨Nat.le_of_eq (Scope.fact_next _ s).symm, hs.fact _, [.fact _],
    Event.step_wrote (.fact _) s, expressions_exprs .., ?_, ?_⟩ <;>
    simp [hnone]

theorem draws_place (hs : s.Hides hidden) {n : Nat} {place : Label} {u : Unit}
    (hn : n < s.table.next)
    (he : Extract.Ends p s (Extract.write (.hasLocation (.number n) place)) u t) :
    s.Draws hidden t [] [n] := by
  obtain rfl := Extract.ends_write.mp he
  have hnext := Scope.fact_next (.hasLocation (.number n) place) s
  refine ⟨Nat.le_of_eq hnext.symm, hs.fact _, [.fact _], Event.step_wrote (.fact _) s,
    expressions_of_ne (by simp [Fact.hasLocation]), ?_, ?_⟩
  · rw [located_hasLocation]
    rintro l hl k rfl
    obtain rfl := Label.number.inj (List.mem_singleton.mp hl)
    omega
  · intro k _
    rw [located_hasLocation, List.count_singleton, List.count_singleton]
    by_cases h : n = k <;> simp [h]

/-- A fact that may locate one visible label at most. -/
theorem draws_tell (hs : s.Hides hidden) {r : String} {entity : Label} {args : List Arg} {u : Unit}
    (hr : r ≠ "exprs") (hl : s.Visible hidden entity)
    (he : Extract.Ends p s (Extract.write ⟨r, .label entity :: args⟩) u t) :
    s.Draws hidden t [] [] := by
  obtain rfl := Extract.ends_write.mp he
  have hnext := Scope.fact_next ⟨r, .label entity :: args⟩ s
  have hentity : ∀ l ∈ located [.fact ⟨r, .label entity :: args⟩], l = entity := by
    intro l hl
    obtain ⟨line, hline, hl⟩ := List.mem_filterMap.mp hl
    obtain rfl := List.mem_singleton.mp hline
    exact Fact.eq_of_located? hl
  refine ⟨Nat.le_of_eq hnext.symm, hs.fact _, [.fact _], Event.step_wrote (.fact _) s,
    expressions_of_ne hr, fun l hm k hk => ?_, fun k hk => ?_⟩
  · rw [hnext]
    exact (hl k ((hentity l hm).symm.trans hk)).1
  · exact List.count_eq_zero_of_not_mem fun hm => (hl k (hentity _ hm).symm).2 hk

theorem draws_fresh (hs : s.Hides hidden) {l : Label} (he : Extract.Ends p s Extract.fresh l t) :
    l = .number s.table.next ∧ s.table.next < t.table.next ∧
      s.Draws (insert s.table.next hidden) t [] [] := by
  obtain ⟨rfl, rfl⟩ := Extract.ends_fresh.mp he
  have hnext : (Event.fresh.step s).table.next = s.table.next + 1 := by
    rw [Event.step_table]
    rfl
  exact ⟨rfl, by omega, by omega, hs.fresh, _, Event.step_wrote .fresh s, rfl, nofun,
    fun _ _ => rfl⟩

end Session

/-! ## Actions that draw nothing -/

namespace Scope

variable {hidden : Set Nat} {p : Program} {s t v : Session}

/-- The scope of an extraction that is not told of the hidden labels, and writes no row of an
expression. -/
def rowless (hidden : Set Nat) (base : Nat) : Scope :=
  { untold hidden base with
    relation := (· ≠ "exprs")
    relation_of_notMem := fun r hr => by
      rintro rfl
      exact hr (by decide) }

theorem rowless_allows (p : Program) {base : Nat} : (rowless hidden base).Allows p :=
  ⟨fun _ _ _ _ => trivial, .inl rfl, .inl rfl⟩

theorem rowless_covers (p : Program) {base : Nat} (typeFuel : Nat) :
    (rowless hidden base).Covers p (projection typeFuel) :=
  covers_projection (rowless_allows p) typeFuel

theorem rowless_spells {base : Nat} (s : Session) (text : String) :
    (rowless hidden base).Spells s text := Letters.spells fun _ _ => trivial

theorem rowless_sound_iff {base : Nat} :
    (rowless hidden base).Sound s ↔ (untold hidden base).Sound s :=
  ⟨fun h => ⟨h.base, h.errors, h.bound, h.target, h.locals, h.loops⟩,
    fun h => ⟨h.base, h.errors, h.bound, h.target, h.locals, h.loops⟩⟩

end Scope

namespace Session

variable {hidden : Set Nat} {p : Program} {s t : Session} {α : Type}

theorem located_of_admits (hs : s.Hides hidden) (hst : s.table.next ≤ t.table.next)
    {es : List Event} (h : (Scope.rowless hidden s.table.next).AdmitsAll t es) :
    expressions (Event.linesOf es t) = [] ∧
      ∀ l ∈ located (Event.linesOf es t), (Event.run es t).Visible hidden l := by
  induction es generalizing t with
  | nil => exact ⟨rfl, nofun⟩
  | cons e es ih =>
    have hnext := next_step e t
    obtain ⟨hrows, hplaces⟩ := ih (Nat.le_trans hst hnext) h.2
    have hlast : (e.step t).table.next ≤ (Event.run es (e.step t)).table.next :=
      Event.run_table_next es _
    have hnone : expressions [] = [] ∧
        ∀ l ∈ located [], (Event.run es (e.step t)).Visible hidden l :=
      ⟨rfl, List.forall_mem_nil _⟩
    have hone : expressions (e.lines t) = [] ∧
        ∀ l ∈ located (e.lines t), (Event.run es (e.step t)).Visible hidden l := by
      cases e with
      | fact f =>
        refine ⟨expressions_of_ne h.1.1, fun l hl => ?_⟩
        obtain ⟨_, hf, hl⟩ := List.mem_filterMap.mp hl
        obtain rfl := List.mem_singleton.mp hf
        have hknows := Scope.KnowsAll.of_mem h.1.2 (Fact.located?_mem_args hl)
        exact (Scope.visible_of_knows hs hst hknows).of_next (Nat.le_trans hnext hlast)
      | lookup key asker =>
        simp only [Event.lines]
        split <;> exact hnone
      | report problem location =>
        simp only [Event.lines, Event.diagnostic]
        split <;> exact hnone
      | _ => exact hnone
    simp only [Event.linesOf, expressions_append, located_append, Event.run]
    exact ⟨by rw [hone.1, hrows]; rfl, List.forall_mem_append.mpr ⟨hone.2, hplaces⟩⟩

/-- What is not told of the hidden labels locates none of them. -/
theorem draws_of_does {m : Extract α} {Q : α → Session → Prop} {a : α} (hs : s.Hides hidden)
    (hm : (Scope.rowless hidden s.table.next).Does p s m Q) (he : Extract.Ends p s m a t) :
    s.Draws hidden t [] [] ∧ Q a t := by
  have hsound := Scope.rowless_sound_iff.mpr (Scope.sound_of_hides hs)
  obtain ⟨hleads, hq⟩ := hm hsound a t he
  have hides := Scope.hides_of_sound hs (Scope.rowless_sound_iff.mp (hleads.sound hsound))
  have hnext := hleads.before.next
  obtain ⟨⟨es, hadmits, -, rfl⟩, -⟩ := hleads
  obtain ⟨hrows, hplaces⟩ := located_of_admits hs (Nat.le_refl _) hadmits
  refine ⟨⟨hnext, hides, _, Event.run_wrote es s, hrows, ?_, fun k hk => ?_⟩, hq⟩
  · exact fun l hl k hk => (hplaces l hl k hk).1
  · exact List.count_eq_zero_of_not_mem fun hl => (hplaces _ hl k rfl).2 hk

end Session

/-! ## Rows and places so far -/

namespace Session

def rowNumbers (ls : List Line) : Set Nat := {k | .number k ∈ expressionIds ls}

/-- With these lines written, the rows of expressions have labels of their own, which the
session does not remember, and each of them was located once, unless it is a type argument. -/
structure Mapped (ls : List Line) (s : Session) : Prop where
  hides : s.Hides (rowNumbers ls)
  numbered : ∀ r ∈ expressions ls, ∃ k, r.id = .number k
  nodup : (expressionIds ls).Nodup
  old : ∀ l ∈ located ls, s.Old l
  parents : ∀ r ∈ expressions ls, r.kind = .expr .typeAccess → r.parent ∈ expressionIds ls
  once : ∀ r ∈ expressions ls,
    (located ls).count r.id = if IsTypeArgument (expressions ls) r then 0 else 1

def Drawn (ls : List Line) (kind : Trap.ExprKind) (l : Label) : Prop :=
  ∃ r ∈ expressions ls, r.kind = .expr kind ∧ r.id = l

/-- More lines were written, in which all rows have new labels. -/
structure Continues (ls ls' : List Line) (s t : Session) : Prop where
  next : s.table.next ≤ t.table.next
  lines : ∃ ms, ls' = ls ++ ms ∧ s.Wrote t ms ∧
    ∀ r ∈ expressions ms, ∃ k, r.id = .number k ∧ s.table.next ≤ k

variable {ls ls' ls'' ms : List Line} {s t v : Session} {l : Label} {kind : Trap.ExprKind}
  {r : Row}

theorem mapped_nil (hs : s.Hides ∅) : Mapped [] s :=
  have hnone {P : Row → Prop} : ∀ r ∈ expressions [], P r := List.forall_mem_nil P
  ⟨hs.mono nofun, hnone, List.nodup_nil, nofun, hnone, hnone⟩

theorem Mapped.lt_next (h : Mapped ls s) (hl : l ∈ expressionIds ls) :
    ∃ k, l = .number k ∧ k < s.table.next := by
  obtain ⟨r, hr, rfl⟩ := List.mem_map.mp hl
  obtain ⟨k, hk⟩ := h.numbered r hr
  exact ⟨k, hk, (h.hides.handedOut k (show .number k ∈ expressionIds ls from hk ▸ hl)).2⟩

theorem Continues.refl (ls : List Line) (s : Session) : Continues ls ls s s :=
  ⟨Nat.le_refl _, [], (List.append_nil ls).symm, wrote_nil rfl, List.forall_mem_nil _⟩

theorem Continues.trans (h : Continues ls ls' s t) (k : Continues ls' ls'' t v) :
    Continues ls ls'' s v := by
  obtain ⟨hst, ms, rfl, hms, hnew⟩ := h
  obtain ⟨htv, ns, rfl, hns, knew⟩ := k
  refine ⟨Nat.le_trans hst htv, ms ++ ns, List.append_assoc .., hms.trans hns, fun r hr => ?_⟩
  rw [expressions_append] at hr
  rcases List.mem_append.mp hr with hr | hr
  · exact hnew r hr
  · obtain ⟨k, hk, hle⟩ := knew r hr
    exact ⟨k, hk, Nat.le_trans hst hle⟩

theorem Continues.drawn (h : Continues ls ls' s t) (hd : Drawn ls kind l) : Drawn ls' kind l := by
  obtain ⟨-, ms, rfl, -, -⟩ := h
  obtain ⟨r, hr, hk, hl⟩ := hd
  exact ⟨r, by rw [expressions_append]; exact List.mem_append_left _ hr, hk, hl⟩

/-- A label that is not of a row will not become the label of one. -/
theorem Continues.visible (h : Continues ls ls' s t) (hl : s.Visible (rowNumbers ls) l) :
    t.Visible (rowNumbers ls') l := by
  obtain ⟨hst, ms, rfl, -, hnew⟩ := h
  rintro k rfl
  obtain ⟨hlt, hnot⟩ := hl k rfl
  refine ⟨Nat.lt_of_lt_of_le hlt hst, fun hk => ?_⟩
  have hk : .number k ∈ expressionIds (ls ++ ms) := hk
  rw [expressionIds_append] at hk
  rcases List.mem_append.mp hk with hk | hk
  · exact hnot hk
  · obtain ⟨r, hr, hid⟩ := List.mem_map.mp hk
    obtain ⟨j, hj, hle⟩ := hnew r hr
    have := Label.number.inj (hid.symm.trans hj)
    omega

/-- Rows are type arguments by what stands above them, which was written before. -/
theorem Mapped.isTypeArgument_append (h : Mapped ls s)
    (hnew : ∀ q ∈ expressions ms, ∃ k, q.id = .number k ∧ s.table.next ≤ k)
    (hr : r.kind = .expr .typeAccess → r.parent ∈ expressionIds ls) :
    IsTypeArgument (expressions (ls ++ ms)) r ↔ IsTypeArgument (expressions ls) r := by
  refine and_congr_right fun hkind => ⟨?_, ?_⟩
  · rintro ⟨q, hq, hid, htakes⟩
    rw [expressions_append] at hq
    rcases List.mem_append.mp hq with hq | hq
    · exact ⟨q, hq, hid, htakes⟩
    · obtain ⟨k, hk, hlt⟩ := h.lt_next (hr hkind)
      obtain ⟨j, hj, hle⟩ := hnew q hq
      have := Label.number.inj (hj.symm.trans (hid.trans hk))
      omega
  · rintro ⟨q, hq, hid, htakes⟩
    exact ⟨q, by rw [expressions_append]; exact List.mem_append_left _ hq, hid, htakes⟩

/-- New rows are located as they should be, and old ones are not located again. -/
theorem Mapped.append (h : Mapped ls s) (hst : s.table.next ≤ t.table.next)
    (hides : t.Hides (rowNumbers (ls ++ ms)))
    (hnew : ∀ r ∈ expressions ms, ∃ k, r.id = .number k ∧ s.table.next ≤ k)
    (hnodup : (expressionIds ms).Nodup) (hold : ∀ l ∈ located ms, t.Old l)
    (hagain : ∀ l ∈ expressionIds ls, l ∉ located ms)
    (hparents : ∀ r ∈ expressions ms, r.kind = .expr .typeAccess → r.parent ∈ expressionIds ls)
    (honce : ∀ r ∈ expressions ms,
      (located ms).count r.id = if IsTypeArgument (expressions ls) r then 0 else 1) :
    Mapped (ls ++ ms) t := by
  have hall {P : Row → Prop} (hls : ∀ r ∈ expressions ls, P r) (hms : ∀ r ∈ expressions ms, P r) :
      ∀ r ∈ expressions (ls ++ ms), P r := by
    rw [expressions_append]
    exact List.forall_mem_append.mpr ⟨hls, hms⟩
  refine ⟨hides, hall h.numbered fun r hr => ?_, ?_, ?_, ?_, hall (fun r hr => ?_) fun r hr => ?_⟩
  · obtain ⟨k, hk, -⟩ := hnew r hr
    exact ⟨k, hk⟩
  · rw [expressionIds_append]
    refine h.nodup.append hnodup fun l hl hm => ?_
    obtain ⟨k, rfl, hlt⟩ := h.lt_next hl
    obtain ⟨r, hr, hid⟩ := List.mem_map.mp hm
    obtain ⟨j, hj, hle⟩ := hnew r hr
    have := Label.number.inj (hid.symm.trans hj)
    omega
  · rw [located_append]
    exact List.forall_mem_append.mpr ⟨fun l hl => (h.old l hl).of_next hst, hold⟩
  · rw [expressionIds_append]
    exact hall (fun r hr hk => List.mem_append_left _ (h.parents r hr hk))
      fun r hr hk => List.mem_append_left _ (hparents r hr hk)
  · rw [located_append, List.count_append, h.once r hr,
      List.count_eq_zero_of_not_mem (hagain _ (mem_expressionIds hr))]
    simp only [h.isTypeArgument_append hnew (h.parents r hr), Nat.add_zero]
  · obtain ⟨k, hk, hle⟩ := hnew r hr
    have hfirst : r.id ∉ located ls := fun hl => by
      have := h.old _ hl k hk
      omega
    rw [located_append, List.count_append, List.count_eq_zero_of_not_mem hfirst, honce r hr]
    simp only [h.isTypeArgument_append hnew (hparents r hr), Nat.zero_add]

theorem Mapped.pass (h : Mapped ls s) (hdraws : s.Draws (rowNumbers ls) t [] []) :
    ∃ ls', Continues ls ls' s t ∧ Mapped ls' t ∧ expressions ls' = expressions ls := by
  obtain ⟨hst, hides, ms, hwrote, hrows, hold, hcount⟩ := hdraws
  have hsame : expressions (ls ++ ms) = expressions ls := by
    rw [expressions_append, hrows, List.append_nil]
  have hids : expressionIds (ls ++ ms) = expressionIds ls := by
    rw [expressionIds, hsame, expressionIds]
  have hnone {P : Row → Prop} : ∀ r ∈ expressions ms, P r := by
    rw [hrows]
    exact List.forall_mem_nil P
  refine ⟨ls ++ ms, ⟨hst, ms, rfl, hwrote, hnone⟩, ?_, hsame⟩
  refine h.append hst (by rwa [rowNumbers, hids]) hnone ?_ hold (fun l hl => ?_) hnone hnone
  · rw [expressionIds, hrows]
    exact List.nodup_nil
  · obtain ⟨k, rfl, -⟩ := h.lt_next hl
    exact List.count_eq_zero.mp (hcount k hl)

/-- One row was drawn, and located unless it is a type argument. -/
theorem Mapped.draw (h : Mapped ls s) {k : Nat} {places : List Nat}
    (hdraws : s.Draws (insert k (rowNumbers ls)) t [r] places) (hid : r.id = .number k)
    (hk : s.table.next ≤ k)
    (hparent : r.kind = .expr .typeAccess → r.parent ∈ expressionIds ls)
    (hplaces : places = if IsTypeArgument (expressions ls) r then [] else [k]) :
    ∃ ls', Continues ls ls' s t ∧ Mapped ls' t ∧ r ∈ expressions ls' := by
  obtain ⟨hst, hides, ms, hwrote, hrows, hold, hcount⟩ := hdraws
  have hone {P : Row → Prop} (hr : P r) : ∀ q ∈ expressions ms, P q := by
    rw [hrows]
    exact List.forall_mem_singleton.mpr hr
  have hids : expressionIds ms = [.number k] := by rw [expressionIds, hrows, List.map, hid]; rfl
  have hnumbers : rowNumbers (ls ++ ms) = insert k (rowNumbers ls) := by
    ext j
    simp [rowNumbers, expressionIds_append, hids, or_comm]
  have hlt {j : Nat} (hj : j ∈ rowNumbers ls) : j < s.table.next := (h.hides.handedOut j hj).2
  refine ⟨ls ++ ms, ⟨hst, ms, rfl, hwrote, hone ⟨k, hid, hk⟩⟩, ?_, ?_⟩
  · refine h.append hst (hnumbers ▸ hides) (hone ⟨k, hid, hk⟩) (hids ▸ List.nodup_singleton _) hold
      (fun l hl => ?_) (hone hparent) (hone ?_)
    · obtain ⟨j, rfl, hj⟩ := h.lt_next hl
      have hne : ¬ k = j := by omega
      refine List.count_eq_zero.mp ((hcount j (.inr hl)).trans ?_)
      rw [hplaces]
      split <;> simp [hne]
    · rw [hid, hcount k (.inl rfl), hplaces]
      split <;> simp
  · rw [expressions_append, hrows]
    exact List.mem_append_right _ (List.mem_singleton_self r)

/-- What stands under a row is a type argument if the row takes types. -/
theorem Mapped.isTypeArgument_iff (h : Mapped ls s) (hd : Drawn ls kind r.parent)
    (hr : r.kind = .expr .typeAccess) :
    IsTypeArgument (expressions ls) r ↔ kind.TakesTypes := by
  obtain ⟨q, hq, hkind, hid⟩ := hd
  rw [← RowKind.takesTypes_iff]
  refine ⟨?_, fun htakes => ⟨hr, q, hq, hid, hkind ▸ htakes⟩⟩
  rintro ⟨-, q', hq', hid', htakes⟩
  obtain rfl := List.inj_on_of_nodup_map h.nodup hq' hq (hid'.trans hid.symm)
  exact hkind ▸ htakes

theorem Drawn.mem_expressionIds (h : Drawn ls kind l) : l ∈ expressionIds ls := by
  obtain ⟨r, hr, -, rfl⟩ := h
  exact Trap.mem_expressionIds hr

end Session

end IrFacts
