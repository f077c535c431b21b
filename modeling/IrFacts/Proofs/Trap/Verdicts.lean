import IrFacts.Trap.Equivalence

/-!
# What a pair of lines decides

Two files are compared by pairs of reads, one from each file. The first pair that
decides gives the outcome, so comparisons whose pairs have the same verdicts end alike.
A verdict does not depend on which file comes first.
-/

set_option autoImplicit false

namespace IrFacts.Trap

/-- The outcome when one file is at its end and the other goes on with a line. -/
def unpaired (line : Bytes) : Except ComparisonError Bool :=
  if isText line then .ok false else .error .invalidText

/-- What a pair of reads decides, if it decides anything. -/
def verdict : Option Bytes → Option Bytes → Option (Except ComparisonError Bool)
  | none, none => some (.ok true)
  | some a, none => some (unpaired a)
  | none, some b => some (unpaired b)
  | some a, some b =>
    if !isText a || !isText b then some (.error .invalidText)
    else if sameLine a b then none
    else some (.ok false)

theorem sameLine_comm (a b : Bytes) : sameLine a b = sameLine b a := by
  simp only [sameLine, eq_comm, Bool.and_comm]

theorem sameLine_self (a : Bytes) : sameLine a a = true := by
  simp [sameLine]

theorem verdict_comm (a b : Option Bytes) : verdict a b = verdict b a := by
  cases a <;> cases b <;> simp [verdict, sameLine_comm, Bool.or_comm]

/-- One turn of a comparison: the pair that is read decides, or the rest does. -/
theorem compareLines_step (as bs : List Bytes) :
    compareLines as bs = (verdict as[0]? bs[0]?).getD (compareLines as.tail bs.tail) := by
  cases as with
  | nil => cases bs <;> rfl
  | cons a as =>
    cases bs with
    | nil => rfl
    | cons b bs =>
      rw [compareLines, List.getElem?_cons_zero, List.getElem?_cons_zero, verdict]
      split
      · rfl
      · split <;> rfl

/-- The outcome is the verdict of the first pair of reads that decides. -/
theorem compareLines_decided (as bs : List Bytes) :
    ∃ i : Nat, (∀ j < i, verdict as[j]? bs[j]? = none) ∧
      verdict as[i]? bs[i]? = some (compareLines as bs) := by
  induction as generalizing bs with
  | nil =>
    refine ⟨0, fun j hj => absurd hj (Nat.not_lt_zero j), ?_⟩
    cases bs <;> rfl
  | cons a as ih =>
    have hstep := compareLines_step (a :: as) bs
    cases hfirst : verdict (a :: as)[0]? bs[0]? with
    | some outcome =>
      rw [hfirst] at hstep
      exact ⟨0, fun j hj => absurd hj (Nat.not_lt_zero j), by rw [hfirst, hstep]; rfl⟩
    | none =>
      rw [hfirst, Option.getD_none] at hstep
      obtain ⟨i, hbefore, hi⟩ := ih bs.tail
      refine ⟨i + 1, fun j hj => ?_, ?_⟩
      · cases j with
        | zero => exact hfirst
        | succ j =>
          have hnone := hbefore j (Nat.lt_of_succ_lt_succ hj)
          rwa [List.getElem?_tail] at hnone
      · rwa [hstep, List.getElem?_cons_succ, ← List.getElem?_tail]

/-- Comparisons whose pairs have the same verdicts have the same outcome. -/
theorem compareLines_congr {as bs cs ds : List Bytes}
    (h : ∀ i : Nat, verdict as[i]? bs[i]? = verdict cs[i]? ds[i]?) :
    compareLines as bs = compareLines cs ds := by
  obtain ⟨i, hbefore, hi⟩ := compareLines_decided as bs
  obtain ⟨j, hbefore', hj⟩ := compareLines_decided cs ds
  rw [← h] at hj
  -- Whichever comparison were decided first, the other has the same verdict there.
  rcases Nat.lt_trichotomy i j with hlt | rfl | hlt
  · rw [h, hbefore' i hlt] at hi
    cases hi
  · exact Option.some.inj (hi.symm.trans hj)
  · rw [hbefore j hlt] at hj
    cases hj

theorem compareLines_comm (as bs : List Bytes) : compareLines as bs = compareLines bs as :=
  compareLines_congr fun _ => verdict_comm _ _

/-- Only a line that is not text keeps a file from being the same as itself. -/
theorem compareLines_self (as : List Bytes) :
    compareLines as as =
      if ∀ a ∈ as, isText a = true then .ok true else .error .invalidText := by
  induction as with
  | nil => rfl
  | cons a as ih =>
    cases ha : isText a with
    | false => simp [compareLines, ha]
    | true => simp [compareLines, ha, sameLine_self, ih]

end IrFacts.Trap
