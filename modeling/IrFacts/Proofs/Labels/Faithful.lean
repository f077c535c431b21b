import IrFacts.Proofs.Run.Event

/-!
# Labels tell their keys apart

A store gives different keys different labels, and every label in it is a
number that it handed out. Whatever happens to a session, its store stays so.
-/

set_option autoImplicit false

namespace IrFacts

namespace LabelTable

structure Faithful (t : LabelTable) : Prop where
  first : LabelTable.first ≤ t.next
  distinct : ∀ key other l, t.find? key = some l → t.find? other = some l → key = other
  bound : ∀ key l, t.find? key = some l → ∃ n, l = .number n ∧ LabelTable.first ≤ n ∧ n < t.next

theorem faithful_empty : empty.Faithful :=
  ⟨Nat.le_refl _, fun _ _ _ h => (nomatch h), fun _ _ h => (nomatch h)⟩

theorem find?_lookup_of_none {t : LabelTable} {key : String} (hnone : t.find? key = none)
    (other : String) : (t.lookup key).2.find? other =
      if other = key then some (.number t.next) else t.find? other := by
  split
  · next h =>
    subst h
    rw [find?_lookup, lookup, hnone]
    rfl
  · next h => exact find?_lookup_of_ne t h

theorem next_lookup_of_none {t : LabelTable} {key : String} (hnone : t.find? key = none) :
    (t.lookup key).2.next = t.next + 1 := by
  rw [lookup, hnone]

namespace Faithful

variable {t : LabelTable}

theorem find?_ne (h : t.Faithful) {key : String} {l : Label} (hl : t.find? key = some l) :
    l ≠ .number t.next := by
  obtain ⟨n, rfl, -, hn⟩ := h.bound key l hl
  intro he
  have := Label.number.inj he
  omega

theorem ne_placeholder (h : t.Faithful) {key : String} {l : Label} (hl : t.find? key = some l) :
    l ≠ .placeholder := by
  obtain ⟨n, rfl, hn, -⟩ := h.bound key l hl
  intro he
  have := Label.number.inj he
  simp only [LabelTable.first] at hn
  omega

theorem fresh (h : t.Faithful) : t.fresh.2.Faithful := by
  refine ⟨Nat.le_succ_of_le h.first, h.distinct, fun key l hl => ?_⟩
  obtain ⟨n, hn, hfirst, hnext⟩ := h.bound key l hl
  exact ⟨n, hn, hfirst, Nat.lt_succ_of_lt hnext⟩

theorem lookup (h : t.Faithful) (key : String) : (t.lookup key).2.Faithful := by
  cases hk : t.find? key with
  | some l =>
    rw [LabelTable.lookup, hk]
    exact h
  | none =>
    refine ⟨?_, fun a b l ha hb => ?_, fun a l ha => ?_⟩
    · rw [next_lookup_of_none hk]
      exact Nat.le_succ_of_le h.first
    · rw [find?_lookup_of_none hk] at ha hb
      split at ha <;> split at hb
      · next ha' hb' => exact ha'.trans hb'.symm
      · cases ha
        exact absurd rfl (h.find?_ne hb)
      · cases hb
        exact absurd rfl (h.find?_ne ha)
      · exact h.distinct a b l ha hb
    · rw [find?_lookup_of_none hk] at ha
      rw [next_lookup_of_none hk]
      split at ha
      · cases ha
        exact ⟨t.next, rfl, h.first, Nat.lt_succ_self _⟩
      · obtain ⟨n, hn, hfirst, hnext⟩ := h.bound a l ha
        exact ⟨n, hn, hfirst, Nat.lt_succ_of_lt hnext⟩

theorem step (e : Event) {s : Session} (h : s.table.Faithful) : (e.step s).table.Faithful := by
  rw [Event.step_table]
  cases e with
  | lookup key asker => exact h.lookup key
  | fresh => exact h.fresh
  | _ => exact h

theorem run (es : List Event) {s : Session} (h : s.table.Faithful) :
    (Event.run es s).table.Faithful := by
  induction es generalizing s with
  | nil => exact h
  | cons e es ih => exact ih (h.step e)

end Faithful

end LabelTable

end IrFacts
