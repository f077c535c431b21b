import IrFacts.Ir.Location
import IrFacts.Proofs.Text.Places

/-!
# Lines and columns of offsets

Where the starts of a table increase from zero on, halving finds the last line that does not
start behind the offset. Its number is told by counting, and its start and the column give back
the offset. The tables that are made from a text or from starts in order are of this kind.
-/

set_option autoImplicit false

namespace IrFacts

namespace LineTable

/-- The starts increase, from zero on. -/
structure Increasing (t : LineTable) : Prop where
  first : t.starts[0]? = some 0
  pairwise : t.starts.toList.Pairwise (· < ·)

/-- The last line that does not start behind the offset. -/
structure LineAt (t : LineTable) (offset : UInt32) (line : Nat) : Prop where
  here : ∃ start, t.starts[line]? = some start ∧ start ≤ offset
  after : ∀ next start, line < next → t.starts[next]? = some start → offset < start

variable {t : LineTable} {offset start : UInt32} {line : Nat}

theorem Increasing.lt (ht : t.Increasing) {i j : Nat} {a b : UInt32} (hij : i < j)
    (ha : t.starts[i]? = some a) (hb : t.starts[j]? = some b) : a < b := by
  rw [← Array.getElem?_toList] at ha hb
  obtain ⟨hi, rfl⟩ := List.getElem?_eq_some_iff.mp ha
  obtain ⟨hj, rfl⟩ := List.getElem?_eq_some_iff.mp hb
  exact List.pairwise_iff_getElem.mp ht.pairwise i j hi hj hij

theorem Increasing.le (ht : t.Increasing) {i j : Nat} {a b : UInt32} (hij : i ≤ j)
    (ha : t.starts[i]? = some a) (hb : t.starts[j]? = some b) : a ≤ b := by
  rcases Nat.lt_or_eq_of_le hij with hlt | rfl
  · exact UInt32.le_of_lt (ht.lt hlt ha hb)
  · rw [Option.some.inj (ha.symm.trans hb)]
    exact UInt32.le_refl b

/-! ## The search -/

/-- The range that is left has a line, its first line does not start behind the offset, and all
lines after the range do. -/
theorem lineAt_narrow (ht : t.Increasing) {fuel base size : Nat} (hpos : 0 < size)
    (hfuel : size ≤ fuel + 1) (hrange : base + size ≤ t.starts.size)
    (hhere : ∃ start, t.starts[base]? = some start ∧ start ≤ offset)
    (hafter : ∀ next start, base + size ≤ next → t.starts[next]? = some start → offset < start) :
    t.LineAt offset (t.narrow offset fuel base size) := by
  induction fuel generalizing base size with
  | zero =>
    rw [narrow]
    exact ⟨hhere, fun next start hnext => hafter next start (by omega)⟩
  | succ fuel ih =>
    rw [narrow]
    by_cases hone : size ≤ 1
    · rw [if_pos hone]
      exact ⟨hhere, fun next start hnext => hafter next start (by omega)⟩
    · obtain ⟨middle, hmiddle⟩ : ∃ middle, t.starts[base + size / 2]? = some middle :=
        ⟨_, Array.getElem?_eq_getElem (by omega)⟩
      simp only [if_neg hone, hmiddle, decide_eq_true_eq]
      by_cases hbehind : offset < middle
      · rw [if_pos hbehind]
        refine ih (by omega) (by omega) (by omega) hhere fun next start hnext hstart => ?_
        exact UInt32.lt_of_lt_of_le hbehind (ht.le (by omega) hmiddle hstart)
      · rw [if_neg hbehind]
        refine ih (by omega) (by omega) (by omega) ⟨middle, hmiddle, UInt32.not_lt.mp hbehind⟩ ?_
        exact fun next start hnext => hafter next start (by omega)

theorem lineAt_lineOf (ht : t.Increasing) (offset : UInt32) :
    t.LineAt offset (t.lineOf offset) := by
  have hpos : 0 < t.starts.size := (Array.getElem?_eq_some_iff.mp ht.first).1
  have hline : t.LineAt offset (t.narrow offset t.starts.size 0 t.starts.size) := by
    refine lineAt_narrow ht hpos (by omega) (by omega) ⟨0, ht.first, UInt32.zero_le⟩ ?_
    intro next start hnext hstart
    rw [Array.getElem?_eq_none (by omega)] at hstart
    cases hstart
  obtain ⟨start, hstart, hle⟩ := hline.here
  rw [lineOf]
  simp only [hstart, if_neg (UInt32.not_lt.mpr hle)]
  exact hline

theorem LineAt.le_start (ht : t.Increasing) (h : t.LineAt offset line)
    (hstart : t.starts[line]? = some start) {other : UInt32} (hother : other ∈ t.starts)
    (hle : other ≤ offset) : other ≤ start := by
  obtain ⟨i, hi⟩ := Array.mem_iff_getElem?.mp hother
  by_cases hline : i ≤ line
  · exact ht.le hline hi hstart
  · exact absurd (h.after i other (by omega) hi) (UInt32.not_lt.mpr hle)

/-- The lines up to this one are those that do not start behind the offset. -/
theorem LineAt.countP_eq (ht : t.Increasing) (h : t.LineAt offset line) :
    t.starts.toList.countP (· ≤ offset) = line + 1 := by
  obtain ⟨start, hstart, hle⟩ := h.here
  have hlt : line < t.starts.toList.length := (Array.getElem?_eq_some_iff.mp hstart).1
  have hupTo : (t.starts.toList.take (line + 1)).countP (· ≤ offset) = line + 1 := by
    have hall : ∀ a ∈ t.starts.toList.take (line + 1), decide (a ≤ offset) = true := by
      intro a ha
      obtain ⟨i, hi, rfl⟩ := List.mem_take_iff_getElem.mp ha
      have hi' : t.starts[i]? = some t.starts.toList[i] := by simp
      exact decide_eq_true (UInt32.le_trans (ht.le (by omega) hi' hstart) hle)
    rw [List.countP_eq_length.mpr hall, List.length_take_of_le hlt]
  have hrest : (t.starts.toList.drop (line + 1)).countP (· ≤ offset) = 0 := by
    rw [List.countP_eq_zero]
    intro a ha
    obtain ⟨i, hi⟩ := List.mem_iff_getElem?.mp ha
    rw [List.getElem?_drop, Array.getElem?_toList] at hi
    simpa using h.after (line + 1 + i) a (by omega) hi
  rw [← List.take_append_drop (line + 1) t.starts.toList, List.countP_append, hupTo, hrest]

/-- Each start is behind as many numbers as there are lines before it. -/
theorem Increasing.index_le (ht : t.Increasing) (hstart : t.starts[line]? = some start) :
    line ≤ start.toNat := by
  induction line generalizing start with
  | zero => exact Nat.zero_le _
  | succ line ih =>
    obtain ⟨hlt, -⟩ := Array.getElem?_eq_some_iff.mp hstart
    obtain ⟨before, hbefore⟩ : ∃ before, t.starts[line]? = some before :=
      ⟨_, Array.getElem?_eq_getElem (by omega)⟩
    have hless := UInt32.lt_iff_toNat_lt.mp (ht.lt (Nat.lt_succ_self line) hbefore hstart)
    have hline := ih hbefore
    omega

/-! ## Columns -/

/-- The line of the offset starts at `start`, and the column is the way from there to the
offset. -/
structure Locates (t : LineTable) (offset start column : UInt32) : Prop where
  line_le : t.lineOf offset ≤ offset.toNat
  atStart : t.starts[t.lineOf offset]? = some start
  atColumn : t.columnOf? offset = some column
  adds : start.toNat + column.toNat = offset.toNat

theorem exists_locates (ht : t.Increasing) (offset : UInt32) :
    ∃ start column, t.Locates offset start column := by
  obtain ⟨start, hstart, hle⟩ := (lineAt_lineOf ht offset).here
  have hle' := UInt32.le_iff_toNat_le.mp hle
  refine ⟨start, offset - start, ?_, hstart, ?_, ?_⟩
  · exact Nat.le_trans (ht.index_le hstart) hle'
  · rw [columnOf?, hstart, Option.map_some]
  · rw [UInt32.toNat_sub_of_le _ _ hle, Nat.add_sub_cancel' hle']

theorem Locates.offset_eq {other start' column : UInt32} (h : t.Locates offset start column)
    (h' : t.Locates other start' column) (hline : t.lineOf offset = t.lineOf other) :
    offset = other := by
  have hstart : start = start' := Option.some.inj (h.atStart.symm.trans (hline ▸ h'.atStart))
  rw [← UInt32.toNat_inj, ← h.adds, ← h'.adds, hstart]

/-! ## Tables of texts -/

/-- Every line of the text starts at an offset that a table can hold. -/
def Holds (bytes : List UInt8) : Prop := ∀ i ∈ bytes.idxsOf newline, i + 1 < UInt32.size

theorem startsFrom_eq (cs : List Char) (offset : Nat) :
    startsFrom offset cs = ((cs.flatMap String.utf8EncodeChar).idxsOf newline offset).map
      fun i => UInt32.ofNat (i + 1) := by
  induction cs generalizing offset with
  | nil => rfl
  | cons c cs ih =>
    rw [List.flatMap_cons, List.idxsOf_append, idxsOf_utf8EncodeChar, startsFrom,
      String.length_utf8EncodeChar]
    by_cases hc : c = '\n'
    · subst hc
      simp only [if_true, ih, List.map_cons, List.singleton_append]
      rfl
    · simp [hc, ih]

theorem starts_ofText (text : String) : (ofText text).starts.toList =
    0 :: ((bytesOf text).idxsOf newline).map fun i => UInt32.ofNat (i + 1) := by
  rw [ofText, startsFrom_eq, bytesOf_eq]

theorem toNat_start {bytes : List UInt8} (h : Holds bytes) {i : Nat}
    (hi : i ∈ bytes.idxsOf newline) : (UInt32.ofNat (i + 1)).toNat = i + 1 :=
  UInt32.toNat_ofNat_of_lt (h i hi)

theorem increasing_ofText {text : String} (h : Holds (bytesOf text)) :
    (ofText text).Increasing where
  first := by rw [← Array.getElem?_toList, starts_ofText, List.getElem?_cons_zero]
  pairwise := by
    rw [starts_ofText, List.pairwise_cons, List.pairwise_map]
    constructor
    · intro start hstart
      obtain ⟨i, hi, rfl⟩ := List.mem_map.mp hstart
      rw [UInt32.lt_iff_toNat_lt, toNat_start h hi]
      exact Nat.succ_pos i
    · have hpositions : ((bytesOf text).idxsOf newline).Pairwise (· < ·) := List.pairwise_idxsOf
      refine hpositions.imp_of_mem ?_
      intro i j hi hj hlt
      rw [UInt32.lt_iff_toNat_lt, toNat_start h hi, toNat_start h hj]
      exact Nat.succ_lt_succ hlt

theorem lineOf_ofText {text : String} (h : Holds (bytesOf text)) (offset : UInt32) :
    (ofText text).lineOf offset = ((bytesOf text).take offset.toNat).count newline := by
  have hcount := (lineAt_lineOf (increasing_ofText h) offset).countP_eq (increasing_ofText h)
  have hbelow : ((bytesOf text).idxsOf newline).countP
        ((fun start => decide (start ≤ offset)) ∘ fun i => UInt32.ofNat (i + 1)) =
      ((bytesOf text).idxsOf newline).countP (· < 0 + offset.toNat) := by
    refine List.countP_congr fun i hi => ?_
    rw [Function.comp_apply, decide_eq_true_eq, decide_eq_true_eq, UInt32.le_iff_toNat_le,
      toNat_start h hi, Nat.zero_add, Nat.succ_le_iff]
  rw [starts_ofText, List.countP_cons_of_pos (by simp), List.countP_map, hbelow,
    countP_idxsOf] at hcount
  omega

theorem startsLine_ofText {text : String} (h : Holds (bytesOf text)) {column : UInt32}
    (hat : (ofText text).Locates offset start column) :
    StartsLine (bytesOf text) offset.toNat start.toNat where
  le := by have := hat.adds; omega
  begins := by
    have hmem : start ∈ (ofText text).starts.toList :=
      Array.mem_toList_iff.mpr (Array.mem_of_getElem? hat.atStart)
    rw [starts_ofText, List.mem_cons, List.mem_map] at hmem
    rcases hmem with rfl | ⟨i, hi, rfl⟩
    · exact .inl rfl
    · rw [toNat_start h hi]
      exact .inr (List.getElem?_eq_some_iff.mpr (by simpa using hi))
  last i hi hlt hnewline := by
    have hmem : i ∈ (bytesOf text).idxsOf newline := by
      simpa using List.getElem?_eq_some_iff.mp hnewline
    have hstart : UInt32.ofNat (i + 1) ∈ (ofText text).starts := by
      rw [← Array.mem_toList_iff, starts_ofText]
      exact List.mem_cons_of_mem _ (List.mem_map_of_mem hmem)
    have hle := (lineAt_lineOf (increasing_ofText h) offset).le_start (increasing_ofText h)
      hat.atStart hstart (by rw [UInt32.le_iff_toNat_le, toNat_start h hmem]; omega)
    rw [UInt32.le_iff_toNat_le, toNat_start h hmem] at hle
    omega

theorem isPlace_ofText {text : String} (h : Holds (bytesOf text)) {column : UInt32}
    (hat : (ofText text).Locates offset start column) :
    IsPlace (bytesOf text) offset.toNat ((ofText text).lineOf offset) column.toNat :=
  ⟨lineOf_ofText h offset, start.toNat, startsLine_ofText h hat, hat.adds⟩

theorem length_bytesOf (text : String) : (bytesOf text).length = text.utf8ByteSize := by
  rw [bytesOf, toList_eq_data]
  rfl

theorem holds_of_short {text : String} (h : text.utf8ByteSize < UInt32.size - 1) :
    Holds (bytesOf text) := by
  intro i hi
  have hlt := List.lt_add_of_mem_idxsOf i hi
  rw [length_bytesOf] at hlt
  omega

/-! ## Tables of starts -/

theorem mem_dropRepeats {start : UInt32} (starts : List UInt32) :
    start ∈ dropRepeats starts ↔ start ∈ starts := by
  fun_induction dropRepeats starts with
  | case1 => rfl
  | case2 => rfl
  | case3 a rest ih => rw [ih, List.mem_cons (b := a), List.mem_cons (b := a)]; simp
  | case4 a b rest hne ih => rw [List.mem_cons, ih, List.mem_cons (b := a)]

theorem pairwise_dropRepeats {starts : List UInt32} (h : starts.Pairwise (· ≤ ·)) :
    (dropRepeats starts).Pairwise (· < ·) := by
  fun_induction dropRepeats starts with
  | case1 => exact .nil
  | case2 a => exact List.pairwise_singleton _ a
  | case3 a rest ih => exact ih h.of_cons
  | case4 a b rest hne ih =>
    refine List.pairwise_cons.mpr ⟨fun start hstart => ?_, ih h.of_cons⟩
    have hb : b ≤ start := by
      rcases List.mem_cons.mp ((mem_dropRepeats _).mp hstart) with rfl | hstart
      · exact UInt32.le_refl _
      · exact List.rel_of_pairwise_cons h.of_cons hstart
    have hab : a ≤ b := List.rel_of_pairwise_cons h (List.mem_cons_self ..)
    exact UInt32.lt_of_lt_of_le (UInt32.lt_of_le_of_ne hab hne) hb

theorem head?_dropRepeats (starts : List UInt32) : (dropRepeats starts).head? = starts.head? := by
  fun_induction dropRepeats starts with
  | case1 => rfl
  | case2 => rfl
  | case3 a rest ih => exact ih
  | case4 => rfl

theorem mem_ofStarts (starts : List UInt32) :
    start ∈ (ofStarts starts).starts ↔ start = 0 ∨ start ∈ starts := by
  rw [ofStarts, List.mem_toArray, mem_dropRepeats]
  split
  · next hzero => exact (or_iff_right_of_imp fun h => h ▸ List.mem_of_mem_head? hzero).symm
  · exact List.mem_cons

theorem increasing_ofStarts {starts : List UInt32} (h : starts.Pairwise (· ≤ ·)) :
    (ofStarts starts).Increasing where
  first := by
    rw [← Array.getElem?_toList, ofStarts, ← List.head?_eq_getElem?, head?_dropRepeats]
    split
    · assumption
    · rfl
  pairwise := by
    refine pairwise_dropRepeats ?_
    split
    · exact h
    · exact List.pairwise_cons.mpr ⟨fun _ _ => UInt32.zero_le, h⟩

/-- In the table of a text the line of an offset is the number of newlines below it, and its start
is behind the last of these. The table of starts in order has these starts and zero, each once,
and the line is one less than the number of starts that are not behind the offset. In both the
column is the way from the start to the offset. -/
theorem line_and_column {text : String} (hshort : text.utf8ByteSize < UInt32.size - 1)
    {starts : List UInt32} (hordered : starts.Pairwise (· ≤ ·)) (offset : UInt32) :
    ((ofText text).lineOf offset = ((bytesOf text).take offset.toNat).count newline ∧
      ∃ start column, (ofText text).Locates offset start column ∧
        ∀ n, StartsLine (bytesOf text) offset.toNat n ↔ n = start.toNat) ∧
    (ofStarts starts).Increasing ∧
    (∀ start, start ∈ (ofStarts starts).starts ↔ start = 0 ∨ start ∈ starts) ∧
    (ofStarts starts).lineOf offset + 1 =
      (ofStarts starts).starts.toList.countP (· ≤ offset) ∧
    ∃ start column, (ofStarts starts).Locates offset start column := by
  have hholds := holds_of_short hshort
  have hincreasing := increasing_ofStarts hordered
  obtain ⟨start, column, hat⟩ := exists_locates (increasing_ofText hholds) offset
  have hstart := startsLine_ofText hholds hat
  refine ⟨⟨lineOf_ofText hholds offset, start, column, hat, fun n => ?_⟩, hincreasing,
    fun _ => mem_ofStarts starts, ?_, exists_locates hincreasing offset⟩
  · exact ⟨fun hn => hn.unique hstart, fun hn => hn ▸ hstart⟩
  · exact ((lineAt_lineOf hincreasing offset).countP_eq hincreasing).symm

/-- The second byte of the fourth line, and the one behind a start that was handed over twice. -/
theorem line_and_column_ef :
    (ofText "ab\ncd\n\nef").lineOf 8 = 3 ∧ (ofText "ab\ncd\n\nef").columnOf? 8 = some 1 ∧
      (ofStarts [7, 7, 10]).lineOf 8 = 1 := by
  have hshort : "ab\ncd\n\nef".utf8ByteSize < UInt32.size - 1 := by decide
  have hordered : ([7, 7, 10] : List UInt32).Pairwise (· ≤ ·) := by decide
  obtain ⟨⟨hline, start, column, hat, hstart⟩, -, -, hcount, -⟩ :=
    line_and_column hshort hordered 8
  rw [bytesOf_eq] at hline hstart
  have hseven : 7 = start.toNat := by
    refine (hstart 7).mp ⟨by decide, .inr (by decide), fun i hle hlt => ?_⟩
    obtain rfl : i = 7 := Nat.le_antisymm (Nat.le_of_lt_succ hlt) hle
    decide
  have hone : column = 1 := by
    have hadds := hat.adds
    rw [← hseven] at hadds
    exact UInt32.toNat_inj.mp (Nat.add_left_cancel hadds)
  refine ⟨hline.trans (by decide), hone ▸ hat.atColumn, ?_⟩
  exact Nat.succ_inj.mp (hcount.trans (by decide))

end LineTable

end IrFacts
