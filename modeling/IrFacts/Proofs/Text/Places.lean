import IrFacts.Proofs.Text.Bytes
import Mathlib.Data.List.Basic

/-!
# Places in a text

A line ends with its newline. The place of an offset is the number of newlines before it and its
distance from the start of its line. Offsets behind the end of the text are on its last line.
-/

set_option autoImplicit false

namespace IrFacts

def newline : UInt8 := 10

/-- The line of an offset starts here: at the beginning of the text, or behind the last newline
before the offset. -/
structure StartsLine (bytes : List UInt8) (offset start : Nat) : Prop where
  le : start ≤ offset
  begins : start = 0 ∨ bytes[start - 1]? = some newline
  last : ∀ i, start ≤ i → i < offset → bytes[i]? ≠ some newline

/-- The line and the column of an offset, both from zero on. -/
structure IsPlace (bytes : List UInt8) (offset line column : Nat) : Prop where
  line : line = (bytes.take offset).count newline
  column : ∃ start, StartsLine bytes offset start ∧ start + column = offset

variable {bytes : List UInt8} {offset line column : Nat}

/-! ## Starts of lines -/

namespace StartsLine

variable {start other : Nat}

theorem le_of (h : StartsLine bytes offset start) (h' : StartsLine bytes offset other) :
    other ≤ start := by
  by_contra hlt
  rcases h'.begins with rfl | hnewline
  · omega
  · have hle := h'.le
    exact h.last (other - 1) (by omega) (by omega) hnewline

theorem unique (h : StartsLine bytes offset start) (h' : StartsLine bytes offset other) :
    start = other :=
  Nat.le_antisymm (h'.le_of h) (h.le_of h')

theorem zero : StartsLine bytes 0 0 :=
  ⟨Nat.le_refl 0, .inl rfl, fun _ _ hi => absurd hi (Nat.not_lt_zero _)⟩

theorem of_newline (h : bytes[offset]? = some newline) :
    StartsLine bytes (offset + 1) (offset + 1) :=
  ⟨Nat.le_refl _, .inr h, fun _ hle hlt => absurd hlt (Nat.not_lt.mpr hle)⟩

theorem succ (h : StartsLine bytes offset start) (hother : bytes[offset]? ≠ some newline) :
    StartsLine bytes (offset + 1) start := by
  refine ⟨Nat.le_succ_of_le h.le, h.begins, fun i hle hlt => ?_⟩
  by_cases hi : i = offset
  · rw [hi]
    exact hother
  · exact h.last i hle (by omega)

end StartsLine

theorem exists_startsLine (bytes : List UInt8) (offset : Nat) :
    ∃ start, StartsLine bytes offset start := by
  induction offset with
  | zero => exact ⟨0, .zero⟩
  | succ offset ih =>
    by_cases h : bytes[offset]? = some newline
    · exact ⟨offset + 1, .of_newline h⟩
    · obtain ⟨start, hstart⟩ := ih
      exact ⟨start, hstart.succ h⟩

/-! ## Places -/

theorem exists_isPlace (bytes : List UInt8) (offset : Nat) :
    ∃ line column, IsPlace bytes offset line column := by
  obtain ⟨start, hstart⟩ := exists_startsLine bytes offset
  exact ⟨_, offset - start, rfl, start, hstart, Nat.add_sub_cancel' hstart.le⟩

theorem count_take_succ (hinside : offset < bytes.length) :
    (bytes.take (offset + 1)).count newline =
      (bytes.take offset).count newline + if bytes[offset]? = some newline then 1 else 0 := by
  rw [List.take_succ_eq_append_getElem hinside, List.count_append, List.count_singleton,
    List.getElem?_eq_getElem hinside]
  simp

theorem IsPlace.behind (hinside : offset < bytes.length)
    (h : IsPlace bytes (offset + 1) line column) :
    ∃ line' column', IsPlace bytes offset line' column' ∧
      if bytes[offset]? = some newline then line = line' + 1 ∧ column = 0
      else line = line' ∧ column = column' + 1 := by
  obtain ⟨line', column', hbefore⟩ := exists_isPlace bytes offset
  obtain ⟨start, hstart, hcolumn⟩ := h.column
  obtain ⟨start', hstart', hcolumn'⟩ := hbefore.column
  have hline := h.line
  rw [count_take_succ hinside, ← hbefore.line] at hline
  refine ⟨line', column', hbefore, ?_⟩
  by_cases hnewline : bytes[offset]? = some newline
  · have hsame := hstart.unique (.of_newline hnewline)
    rw [if_pos hnewline] at hline ⊢
    exact ⟨hline, by omega⟩
  · have hsame := hstart.unique (hstart'.succ hnewline)
    rw [if_neg hnewline] at hline ⊢
    exact ⟨hline, by omega⟩

/-! ## Newlines by their positions -/

theorem idxsOf_utf8EncodeChar (c : Char) (offset : Nat) :
    (String.utf8EncodeChar c).idxsOf newline offset = if c = '\n' then [offset] else [] := by
  by_cases hc : c = '\n'
  · subst hc
    rfl
  · rw [if_neg hc, List.idxsOf_eq_nil_iff]
    intro b hb
    refine beq_false_of_ne fun hnewline => hc ?_
    exact eq_of_ascii_mem (b := newline) rfl (by decide) (hnewline ▸ hb)

theorem countP_idxsOf (bytes : List UInt8) (offset n : Nat) :
    (bytes.idxsOf newline offset).countP (· < offset + n) = (bytes.take n).count newline := by
  induction bytes generalizing offset n with
  | nil => simp
  | cons b rest ih =>
    cases n with
    | zero =>
      rw [List.countP_eq_zero.mpr, List.take_zero, List.count_nil]
      intro i hi
      have hge := List.ge_of_mem_idxsOf i hi
      rw [decide_eq_true_eq]
      omega
    | succ n =>
      have hshift : offset + (n + 1) = offset + 1 + n := by omega
      rw [List.idxsOf_cons, List.take_succ_cons, List.count_cons, ← ih (offset + 1) n, hshift]
      by_cases hb : b = newline
      · have hhere : offset < offset + 1 + n := by omega
        simp [hb, hhere]
      · simp [hb]

end IrFacts
