import IrFacts.Proofs.Code.Nodes
import IrFacts.Proofs.Run.Growth

/-!
# Sessions that fill a slot

Between two sessions some nodes of code were written. Whatever keeps to the
scope without marks writes none, and the nodes that fill one slot are put
together from those that fill the slots below it.
-/

set_option autoImplicit false

namespace IrFacts

namespace Session

def Marks (s t : Session) (marks : List Trap.Mark) : Prop :=
  s.table.next ≤ t.table.next ∧ ∃ ls, s.Wrote t ls ∧ ls.filterMap Trap.Line.mark? = marks

variable {s t u : Session} {as bs : List Trap.Mark}

theorem Marks.refl (s : Session) : s.Marks s [] := ⟨Nat.le_refl _, [], wrote_nil rfl, rfl⟩

theorem Marks.trans (h : s.Marks t as) (k : t.Marks u bs) : s.Marks u (as ++ bs) := by
  obtain ⟨hst, ls, hls, rfl⟩ := h
  obtain ⟨htu, ms, hms, rfl⟩ := k
  exact ⟨Nat.le_trans hst htu, ls ++ ms, hls.trans hms, List.filterMap_append⟩

theorem marks_step (e : Event) (s : Session) :
    s.Marks (e.step s) ((e.lines s).filterMap Trap.Line.mark?) := by
  refine ⟨?_, _, Event.step_wrote e s, rfl⟩
  rw [Event.step_table]
  exact Event.onTable_next e _

/-- The label existed in `s`, if it is a number. -/
def Old (s : Session) (l : Label) : Prop := ∀ k, l = .number k → k < s.table.next

theorem Old.of_marks {l : Label} (h : s.Old l) (k : s.Marks t as) : t.Old l :=
  fun n hn => Nat.lt_of_lt_of_le (h n hn) k.1

/-- Between `s` and `t` one node was written, with a new id. -/
structure Made (callable : Label) (s t : Session) (n : Trap.Node) : Prop where
  marks : s.Marks t (n.marks callable)
  fresh : ∃ k, n.id = .number k ∧ s.table.next ≤ k ∧ k < t.table.next

def Filled (callable : Label) (branches : Bool) (parent : Label) (indexes : Int → Prop)
    (s t : Session) : Prop :=
  ∃ ns : List Trap.Node, s.Marks t (ns.flatMap (Trap.Node.marks callable)) ∧
    Trap.Fills branches parent indexes s.table.next t.table.next ns

variable {callable parent : Label} {b : Bool} {I J : Int → Prop} {n : Trap.Node}

theorem Made.old (h : Made callable s t n) : t.Old n.id := by
  obtain ⟨k, hk, -, hkt⟩ := h.fresh
  intro a ha
  have := Label.number.inj (hk.symm.trans ha)
  omega

theorem Made.then (h : Made callable s t n) (k : t.Marks u []) : Made callable s u n := by
  obtain ⟨a, ha, hsa, hat⟩ := h.fresh
  have hm := h.marks.trans k
  rw [List.append_nil] at hm
  exact ⟨hm, a, ha, hsa, Nat.lt_of_lt_of_le hat k.1⟩

theorem filled_nil (h : s.Marks t []) : Filled callable b parent I s t :=
  ⟨[], h, Trap.fills_nil⟩

theorem Filled.mono (h : Filled callable b parent I s t) (hI : ∀ i, I i → J i) :
    Filled callable b parent J s t := by
  obtain ⟨ns, hm, hf⟩ := h
  exact ⟨ns, hm, hf.mono hI (Nat.le_refl _) (Nat.le_refl _)⟩

theorem Filled.after (h : s.Marks t []) (k : Filled callable b parent I t u) :
    Filled callable b parent I s u := by
  obtain ⟨ns, hm, hf⟩ := k
  exact ⟨ns, h.trans hm, hf.mono (fun _ hi => hi) h.1 (Nat.le_refl _)⟩

theorem Filled.then (h : Filled callable b parent I s t) (k : t.Marks u []) :
    Filled callable b parent I s u := by
  obtain ⟨ns, hm, hf⟩ := h
  have hm := hm.trans k
  rw [List.append_nil] at hm
  exact ⟨ns, hm, hf.mono (fun _ hi => hi) (Nat.le_refl _) k.1⟩

theorem Filled.le (h : Filled callable b parent I s t) : s.table.next ≤ t.table.next := by
  obtain ⟨_, hm, -⟩ := h
  exact hm.1

theorem Old.of_filled {l : Label} (h : s.Old l) (k : Filled callable b parent I s t) : t.Old l :=
  fun n hn => Nat.lt_of_lt_of_le (h n hn) k.le

theorem Filled.append (h : Filled callable b parent I s t) (k : Filled callable b parent J t u)
    (hold : s.Old parent) (hIJ : ∀ i, I i → ¬ J i) :
    Filled callable b parent (fun i => I i ∨ J i) s u := by
  obtain ⟨ns, hm, hf⟩ := h
  obtain ⟨ms, km, kf⟩ := k
  refine ⟨ns ++ ms, ?_, hf.append kf hm.1 km.1 hold hIJ⟩
  rw [List.flatMap_append]
  exact hm.trans km

theorem Made.filled {c : Bool} (h : Made callable s t n) (hold : s.Old n.parent)
    (k : Filled callable c n.id J t u) :
    Filled callable (!n.isRow) n.parent (· = n.index) s u := by
  obtain ⟨ns, km, kf⟩ := k
  obtain ⟨a, ha, hsa, hat⟩ := h.fresh
  refine ⟨n :: ns, ?_, kf.cons ha hsa hat km.1 hold⟩
  rw [List.flatMap_cons]
  exact h.marks.trans km

theorem Made.leaf (h : Made callable s t n) (hold : s.Old n.parent) :
    Filled callable (!n.isRow) n.parent (· = n.index) s t :=
  h.filled (c := false) (J := fun _ => False) hold (filled_nil (.refl t))

end Session

/-! ## What writes no marks -/

namespace Scope

/-- The scope that admits everything but nodes of code and what belongs to them. -/
def unmarked : Scope where
  given _ _ := True
  base := 0
  errors := 0
  letter _ := True
  relation r := r ∉ Trap.markRelations
  given_mono _ _ _ _ _ := trivial
  given_placeholder _ _ := trivial
  letter_of_ne _ _ := trivial
  relation_of_notMem r hr hm := hr <| by
    simp only [Trap.markRelations, Trap.codeRelations, List.mem_cons, List.not_mem_nil,
      or_false] at hm ⊢
    grind

theorem unmarked_sound (s : Session) : unmarked.Sound s :=
  ⟨Nat.zero_le _, Nat.zero_le _, fun _ _ => Or.inl trivial, Or.inl trivial,
    fun _ _ => Or.inl trivial, fun _ _ => Or.inl trivial⟩

theorem unmarked_knows (s : Session) (l : Label) : unmarked.Knows s l := Or.inl trivial

theorem unmarked_spells (s : Session) (text : String) : unmarked.Spells s text :=
  Letters.spells fun _ _ => trivial

theorem unmarked_allows (p : Program) : unmarked.Allows p :=
  ⟨fun _ _ _ _ => trivial, .inl rfl, .inl rfl⟩

theorem unmarked_covers (p : Program) (fuel : Nat) : unmarked.Covers p (projection fuel) :=
  covers_projection (unmarked_allows p) fuel

end Scope

namespace Session

variable {p : Program} {s s' : Session} {α : Type}

theorem marks_of_admits {es : List Event} (h : Scope.unmarked.AdmitsAll s es) :
    s.Marks (Event.run es s) [] := by
  induction es generalizing s with
  | nil => exact .refl s
  | cons e es ih =>
    have he : (e.lines s).filterMap Trap.Line.mark? = [] := by
      cases e with
      | fact f => simp [Event.lines, Trap.Line.mark?, Trap.Fact.mark?_of_notMem h.1.1]
      | lookup key asker =>
        simp only [Event.lines]
        split <;> rfl
      | report problem location =>
        simp only [Event.lines, Event.diagnostic]
        split <;> rfl
      | _ => rfl
    have hstep := marks_step e s
    rw [he] at hstep
    exact hstep.trans (ih h.2)

theorem marks_of_does {m : Extract α} {Q : α → Session → Prop} {a : α}
    (h : Scope.unmarked.Does p s m Q) (he : Extract.Ends p s m a s') : s.Marks s' [] := by
  obtain ⟨⟨⟨es, hadmits, -, rfl⟩, -⟩, -⟩ := h (Scope.unmarked_sound s) a s' he
  exact marks_of_admits hadmits

theorem marks_pure {a b : α} (he : Extract.Ends p s (pure a) b s') : s.Marks s' [] := by
  obtain ⟨-, rfl⟩ := Extract.ends_pure.mp he
  exact .refl _

theorem marks_fact {f : Trap.Fact} {u : Unit} (he : Extract.Ends p s (Extract.write f) u s') :
    s.Marks s' f.mark?.toList := by
  obtain rfl := Extract.ends_write.mp he
  have h := marks_step (.fact f) s
  rwa [Event.lines, List.filterMap_cons, List.filterMap_nil, Trap.Line.mark?] at h

theorem marks_write {r : String} {args : List Trap.Arg} {u : Unit} (hr : r ∉ Trap.markRelations)
    (he : Extract.Ends p s (Extract.write ⟨r, args⟩) u s') : s.Marks s' [] := by
  have h := marks_fact he
  rwa [Trap.Fact.mark?_of_notMem hr] at h

end Session

end IrFacts
