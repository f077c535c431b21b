import IrFacts.Json.Value

/-!
# Written documents have no control characters

Whatever strings stand in a document, they are escaped. So a control character
tells where the text of a document ends.
-/

set_option autoImplicit false

namespace IrFacts

namespace Json

def Printable (text : String) : Prop := ∀ c ∈ text.toList, 0x20 ≤ c.toNat

instance (text : String) : Decidable (Printable text) :=
  decidable_of_iff (text.toList.all fun c => 0x20 ≤ c.toNat) (by simp [Printable])

@[simp]
theorem printable_append {a b : String} : Printable (a ++ b) ↔ Printable a ∧ Printable b := by
  simp only [Printable, String.toList_append, List.mem_append, or_imp, forall_and]

theorem printable_ofList {chars : List Char} :
    Printable (String.ofList chars) ↔ ∀ c ∈ chars, 0x20 ≤ c.toNat := by
  rw [Printable, String.toList_ofList]

theorem printable_nat (n : Nat) : Printable (toString n) := by
  intro c hc
  rw [Nat.toString_eq_repr, Nat.toList_repr] at hc
  have hdigit := Nat.isDigit_of_mem_toDigits (by decide) (by decide) hc
  rw [Char.isDigit, Bool.and_eq_true, decide_eq_true_eq] at hdigit
  exact Nat.le_trans (by decide) (UInt32.le_iff_toNat_le.mp hdigit.1)

theorem printable_int (n : Int) : Printable (toString n) := by
  cases n with
  | ofNat n => exact printable_nat n
  | negSucc n => exact printable_append.mpr ⟨by decide, printable_nat _⟩

end Json

/-! ## Decimals -/

namespace Decimal

open Json

theorem printable_zeros (n : Nat) : Printable (zeros n) :=
  printable_ofList.mpr fun _ hc => List.eq_of_mem_replicate hc ▸ by decide

theorem printable_positional (s : Scientific) : Printable s.positional := by
  have hdigits := printable_nat s.digits
  unfold Scientific.positional
  extract_lets digits places all whole
  split
  · simp only [printable_append]
    exact ⟨⟨hdigits, printable_zeros _⟩, by decide⟩
  · have hall : Printable (zeros (places + 1 - digits.length) ++ digits) :=
      printable_append.mpr ⟨printable_zeros _, hdigits⟩
    simp only [printable_append, printable_ofList]
    exact ⟨⟨fun c hc => hall c (List.mem_of_mem_take hc), by decide⟩,
      fun c hc => hall c (List.mem_of_mem_drop hc)⟩

theorem printable_exponential (s : Scientific) {plus : String} (hplus : Printable plus) :
    Printable (s.exponential plus) := by
  have hdigits := printable_nat s.digits
  have hinteger (n : Int) : Printable (integerText n plus) := by
    unfold integerText
    split <;> simp only [printable_append]
    · exact ⟨by decide, printable_nat _⟩
    · exact ⟨hplus, printable_nat _⟩
  unfold Scientific.exponential
  extract_lets digits lead tail
  simp only [printable_append, printable_ofList]
  refine ⟨⟨⟨fun c hc => hdigits c (List.mem_of_mem_take hc), ?_⟩, by decide⟩, hinteger _⟩
  split
  · decide
  · simp only [printable_append, printable_ofList]
    exact ⟨by decide, fun c hc => hdigits c (List.mem_of_mem_drop hc)⟩

theorem Layout.printable_write {l : Layout} (hplus : Printable l.plus) (hnan : Printable l.nan)
    (hinfinite : Printable l.infinite) (hnegative : Printable l.negativeInfinite) (x : Floating) :
    Printable (l.write x) := by
  match x with
  | .nan => exact hnan
  | .infinite false => exact hinfinite
  | .infinite true => exact hnegative
  | .finite negative value =>
    unfold Layout.write
    refine printable_append.mpr ⟨?_, ?_⟩
    · cases negative <;> decide
    · split
      · decide
      · split
        · exact printable_positional _
        · exact printable_exponential _ hplus

end Decimal

/-! ## Documents -/

namespace Json

theorem toNat_hexDigit : ∀ n < 16, 0x20 ≤ (hexDigit n).toNat := by decide

theorem printable_escapeChar (c : Char) : Printable (String.ofList (escapeChar c)) := by
  unfold escapeChar
  iterate 7
    split
    · decide
  split
  · next hsmall =>
    have hhigh := toNat_hexDigit (c.toNat / 16) (by omega)
    have hlow := toNat_hexDigit (c.toNat % 16) (Nat.mod_lt _ (by decide))
    refine printable_ofList.mpr ?_
    simp only [List.forall_mem_cons, List.not_mem_nil, false_imp_iff, implies_true, and_true]
    exact ⟨by decide, by decide, by decide, by decide, hhigh, hlow⟩
  · next hsmall =>
    refine printable_ofList.mpr fun e he => ?_
    rw [List.mem_singleton.mp he]
    exact Nat.not_lt.mp hsmall

theorem printable_quoted (s : String) : Printable (quoted s) := by
  unfold quoted
  simp only [printable_append, printable_ofList]
  refine ⟨⟨by decide, fun e he => ?_⟩, by decide⟩
  obtain ⟨c, -, hc⟩ := List.mem_flatMap.mp he
  exact printable_ofList.mp (printable_escapeChar c) e hc

namespace Value

mutual

theorem printable_render : ∀ v : Value, Printable v.render
  | .null => by decide
  | .bool true => by decide
  | .bool false => by decide
  | .integer n => printable_int n
  | .real x => Decimal.Layout.printable_write (by decide) (by decide) (by decide) (by decide) _
  | .real32 x => Decimal.Layout.printable_write (by decide) (by decide) (by decide) (by decide) _
  | .string s => printable_quoted s
  | .array [] => by decide
  | .array (item :: rest) => by
    simp only [render, printable_append]
    exact ⟨⟨by decide, printable_render item⟩, printable_renderItems rest⟩
  | .object [] => by decide
  | .object ((name, value) :: rest) => by
    simp only [render, printable_append]
    exact ⟨⟨⟨⟨by decide, printable_quoted name⟩, by decide⟩, printable_render value⟩,
      printable_renderMembers rest⟩

theorem printable_renderItems : ∀ items : List Value, Printable (renderItems items)
  | [] => by decide
  | item :: rest => by
    simp only [renderItems, printable_append]
    exact ⟨⟨by decide, printable_render item⟩, printable_renderItems rest⟩

theorem printable_renderMembers : ∀ members : List (String × Value),
    Printable (renderMembers members)
  | [] => by decide
  | (name, value) :: rest => by
    simp only [renderMembers, printable_append]
    exact ⟨⟨⟨⟨by decide, printable_quoted name⟩, by decide⟩, printable_render value⟩,
      printable_renderMembers rest⟩

end

end Value

end Json

end IrFacts
