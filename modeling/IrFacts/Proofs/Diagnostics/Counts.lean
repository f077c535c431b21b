import IrFacts.Diagnostics.Counter
import Mathlib.Data.String.Basic

/-!
# Counts of sites

The sites of a counter are ordered, so that each has one count. A report adds
one to the count of its site and leaves those of the others alone.
-/

set_option autoImplicit false

namespace IrFacts.Counter

/-- The sites are in order, none of them twice. -/
def Ordered (c : Counter) : Prop := (c.counts.map (·.1)).Pairwise (· < ·)

theorem ordered_empty (errors limit : Nat) : Ordered { counts := [], errors, limit } := .nil

theorem mem_increment {site other : String} {counts : List (String × Nat)}
    (h : other ∈ (increment site counts).map (·.1)) : other = site ∨ other ∈ counts.map (·.1) := by
  induction counts with
  | nil => simpa [increment] using h
  | cons entry rest ih =>
    obtain ⟨first, n⟩ := entry
    simp only [increment] at h
    split at h
    · exact Or.inr h
    · split at h
      · simpa using h
      · rcases List.mem_cons.mp h with h | h
        · exact Or.inr (by simp [h])
        · exact (ih h).imp_right (List.mem_cons_of_mem _)

theorem pairwise_increment (site : String) {counts : List (String × Nat)}
    (h : (counts.map (·.1)).Pairwise (· < ·)) :
    ((increment site counts).map (·.1)).Pairwise (· < ·) := by
  induction counts with
  | nil => exact List.pairwise_singleton _ _
  | cons entry rest ih =>
    obtain ⟨first, n⟩ := entry
    obtain ⟨hfirst, hrest⟩ := List.pairwise_cons.mp h
    simp only [increment]
    split
    · exact h
    · next hne =>
      split
      · next hlt =>
        refine List.pairwise_cons.mpr ⟨fun other ho => ?_, h⟩
        rcases List.mem_cons.mp ho with rfl | ho
        · exact hlt
        · exact hlt.trans (hfirst other ho)
      · next hlt =>
        refine List.pairwise_cons.mpr ⟨fun other ho => ?_, ih hrest⟩
        rcases mem_increment ho with rfl | ho
        · exact lt_of_le_of_ne (not_lt.mp hlt) (Ne.symm hne)
        · exact hfirst other ho

theorem lookup_increment_of_ne {site other : String} (hne : other ≠ site)
    (counts : List (String × Nat)) :
    (increment site counts).lookup other = counts.lookup other := by
  have hsite : (other == site) = false := beq_false_of_ne hne
  induction counts with
  | nil => simp [increment, List.lookup_cons, hsite]
  | cons entry rest ih =>
    obtain ⟨first, n⟩ := entry
    simp only [increment]
    split
    · next h =>
      subst h
      simp [List.lookup_cons, hsite]
    · split
      · simp [List.lookup_cons, hsite]
      · simp [List.lookup_cons, ih]

theorem lookup_eq_none_of_lt {site : String} {counts : List (String × Nat)}
    (h : ∀ other ∈ counts.map (·.1), site < other) : counts.lookup site = none := by
  apply List.lookup_eq_none_iff.mpr
  intro entry hentry
  exact bne_iff_ne.mpr (ne_of_lt (h entry.1 (List.mem_map.mpr ⟨entry, hentry, rfl⟩)))

theorem lookup_increment_self (site : String) {counts : List (String × Nat)}
    (h : (counts.map (·.1)).Pairwise (· < ·)) :
    (increment site counts).lookup site = some ((counts.lookup site).getD 0 + 1) := by
  induction counts with
  | nil => simp [increment]
  | cons entry rest ih =>
    obtain ⟨first, n⟩ := entry
    obtain ⟨hfirst, hrest⟩ := List.pairwise_cons.mp h
    simp only [increment]
    split
    · next he =>
      subst he
      simp
    · next hne =>
      split
      · next hlt =>
        have hnone : ((first, n) :: rest).lookup site = none := by
          apply lookup_eq_none_of_lt
          intro other ho
          rcases List.mem_cons.mp ho with rfl | ho
          · exact hlt
          · exact hlt.trans (hfirst other ho)
        simp [hnone]
      · have hbeq : (site == first) = false := beq_false_of_ne hne
        simp [List.lookup_cons, hbeq, ih hrest]

/-! ## Reports -/

theorem Ordered.accept {c : Counter} (h : c.Ordered) (site : String) : (c.accept site).2.Ordered :=
  pairwise_increment site h

theorem countOf_accept {c : Counter} (h : c.Ordered) (site other : String) :
    (c.accept site).2.countOf other = c.countOf other + if other = site then 1 else 0 := by
  simp only [Counter.accept, countOf]
  split
  · next he =>
    subst he
    rw [lookup_increment_self other h]
    rfl
  · next hne => rw [lookup_increment_of_ne hne, Nat.add_zero]

end IrFacts.Counter
