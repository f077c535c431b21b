import IrFacts.Proofs.Ir.LineTables
import IrFacts.Proofs.Run.Settles
import IrFacts.Proofs.Types.Form
import IrFacts.Trap.FileWriter

/-!
# Locations of spans

On a writer with the line table of a text a span has the location of its offsets, told in lines
and columns. These tell the offsets, so two spans have the same location just if they begin and
end at the same places, and no span has that of the whole file or the unknown one.
-/

set_option autoImplicit false

namespace IrFacts

/-! ## Offsets of spans -/

namespace Span

/-- Where the span begins. What lies before the text counts as its beginning. -/
def beginsAt (s : Span) : Nat := s.start.toInt.toNat

/-- Where the span ends, which is not before it begins. -/
def endsAt (s : Span) : Nat := (max s.start.toInt s.stop.toInt).toNat

variable (s : Span)

theorem toNat_clamp (offset : Int32) : (clamp offset).toNat = offset.toInt.toNat := by
  rw [clamp]
  by_cases h : offset < 0
  · have hneg : offset.toInt < 0 := Int32.lt_iff_toInt_lt.mp h
    rw [if_pos h, Int.toNat_of_nonpos (Int.le_of_lt hneg)]
    rfl
  · rw [if_neg h, Int32.toNat_toUInt32_of_le (Int32.not_lt.mp h)]
    rfl

theorem toNat_first : s.first.toNat = s.beginsAt := toNat_clamp s.start

theorem toNat_last : s.last.toNat = s.endsAt := by
  rw [last, toNat_clamp, endsAt]
  by_cases h : s.stop < s.start
  · have hless := Int32.lt_iff_toInt_lt.mp h
    rw [if_pos h, Int.max_eq_left (Int.le_of_lt hless)]
  · have hle := Int32.le_iff_toInt_le.mp (Int32.not_lt.mp h)
    rw [if_neg h, Int.max_eq_right hle]

theorem beginsAt_succ_lt : s.beginsAt + 1 < UInt32.size := by
  have hlt := s.start.toInt_lt
  have hsize : UInt32.size = 4294967296 := rfl
  unfold beginsAt
  omega

theorem endsAt_succ_lt : s.endsAt + 1 < UInt32.size := by
  have hstart := s.start.toInt_lt
  have hstop := s.stop.toInt_lt
  have hsize : UInt32.size = 4294967296 := rfl
  unfold endsAt
  omega

end Span

/-! ## Regions -/

namespace Trap

namespace Region

/-- The region of a span in a text: its first line and column and its last line count from one,
and the last column is how far the end of the span is from the start of its line. -/
structure Covers (r : Region) (bytes : List UInt8) (s : Span) : Prop where
  start : ∃ line column, IsPlace bytes s.beginsAt line column ∧
    r.startLine.toNat = line + 1 ∧ r.startColumn.toNat = column + 1
  stop : ∃ line column, IsPlace bytes s.endsAt line column ∧
    r.endLine.toNat = line + 1 ∧ r.endColumn.toNat = column
  lastByte : s.beginsAt < s.endsAt → s.endsAt ≤ bytes.length →
    ∃ line column, IsPlace bytes (s.endsAt - 1) line column ∧
      if bytes[s.endsAt - 1]? = some newline then
        r.endLine.toNat = line + 2 ∧ r.endColumn.toNat = 0
      else r.endLine.toNat = line + 1 ∧ r.endColumn.toNat = column + 1

theorem toNat_ofNat_succ {n : Nat} (h : n + 1 < UInt32.size) :
    (UInt32.ofNat n + 1).toNat = n + 1 := by
  rw [UInt32.toNat_add, UInt32.toNat_ofNat_of_lt' (Nat.lt_of_succ_lt h)]
  exact Nat.mod_eq_of_lt h

theorem toNat_succ {n : UInt32} (h : n.toNat + 1 < UInt32.size) : (n + 1).toNat = n.toNat + 1 := by
  rw [← UInt32.ofNat_toNat (x := n), toNat_ofNat_succ h, UInt32.ofNat_toNat]

section

variable {lines : LineTable} {a b : Span}

/-- The numbers of the region of a span, with nothing lost of any. -/
structure Tells (r : Region) (lines : LineTable) (s : Span) : Prop where
  start : ∃ start column, lines.Locates s.first start column ∧
    r.startLine.toNat = lines.lineOf s.first + 1 ∧ r.startColumn.toNat = column.toNat + 1
  stop : ∃ start, lines.Locates s.last start r.endColumn ∧
    r.endLine.toNat = lines.lineOf s.last + 1

theorem exists_tells (h : lines.Increasing) (s : Span) :
    ∃ r, ofSpan? lines s = some r ∧ r.Tells lines s := by
  obtain ⟨start, column, hfirst⟩ := LineTable.exists_locates h s.first
  obtain ⟨start', column', hlast⟩ := LineTable.exists_locates h s.last
  have hbegin := s.toNat_first ▸ s.beginsAt_succ_lt
  have hend := s.toNat_last ▸ s.endsAt_succ_lt
  have hline := hfirst.line_le
  have hline' := hlast.line_le
  have hcolumn := hfirst.adds
  refine ⟨_, by rw [ofSpan?, hfirst.atColumn, hlast.atColumn]; rfl, ?_, ?_⟩
  · exact ⟨start, column, hfirst, toNat_ofNat_succ (by omega), toNat_succ (by omega)⟩
  · exact ⟨start', hlast, toNat_ofNat_succ (by omega)⟩

theorem ofSpan?_congr (hbegins : a.beginsAt = b.beginsAt) (hends : a.endsAt = b.endsAt) :
    ofSpan? lines a = ofSpan? lines b := by
  rw [← a.toNat_first, ← b.toNat_first, UInt32.toNat_inj] at hbegins
  rw [← a.toNat_last, ← b.toNat_last, UInt32.toNat_inj] at hends
  rw [ofSpan?, ofSpan?, hbegins, hends]

theorem Tells.inj {r : Region} (ha : r.Tells lines a) (hb : r.Tells lines b) :
    a.beginsAt = b.beginsAt ∧ a.endsAt = b.endsAt := by
  obtain ⟨_, column, hfirst, hline, hcolumn⟩ := ha.start
  obtain ⟨_, column', hfirst', hline', hcolumn'⟩ := hb.start
  obtain ⟨_, hlast, hend⟩ := ha.stop
  obtain ⟨_, hlast', hend'⟩ := hb.stop
  obtain rfl : column = column' := UInt32.toNat_inj.mp (by omega)
  rw [← a.toNat_first, ← b.toNat_first, ← a.toNat_last, ← b.toNat_last,
    hfirst.offset_eq hfirst' (by omega), hlast.offset_eq hlast' (by omega)]
  exact ⟨rfl, rfl⟩

theorem Tells.covers {text : String} (h : LineTable.Holds (bytesOf text)) {s : Span} {r : Region}
    (hr : r.Tells (.ofText text) s) : r.Covers (bytesOf text) s := by
  obtain ⟨_, _, hfirst, hline, hcolumn⟩ := hr.start
  obtain ⟨_, hlast, hend⟩ := hr.stop
  have hbegins := LineTable.isPlace_ofText h hfirst
  have hends := LineTable.isPlace_ofText h hlast
  rw [s.toNat_first] at hbegins
  rw [s.toNat_last] at hends
  refine ⟨⟨_, _, hbegins, hline, hcolumn⟩, ⟨_, _, hends, hend, rfl⟩, fun hnonempty hinside => ?_⟩
  have hsucc : s.endsAt = s.endsAt - 1 + 1 := by omega
  rw [hsucc] at hends
  obtain ⟨line, column, hplace, hbyte⟩ := hends.behind (by omega)
  refine ⟨line, column, hplace, ?_⟩
  by_cases hnewline : (bytesOf text)[s.endsAt - 1]? = some newline
  · rw [if_pos hnewline] at hbyte ⊢
    omega
  · rw [if_neg hnewline] at hbyte ⊢
    omega

end

theorem digits_comma_inj {m n : Nat} {rest more : List Char}
    (h : (toString m).toList ++ (",".toList ++ rest) =
      (toString n).toList ++ (",".toList ++ more)) : m = n ∧ rest = more := by
  obtain ⟨hdigits, hrest⟩ := eq_of_append_cons (Label.notMem_digits (by decide) m)
    (Label.notMem_digits (by decide) n) h
  exact ⟨Nat.repr_injective (String.toList_inj.mp hdigits), hrest⟩

theorem key_inj {m n : Nat} {r r' : Region} (h : r.key (.number m) = r'.key (.number n)) :
    m = n ∧ r = r' := by
  have h := congrArg String.toList h
  simp only [key, String.toList_append, List.append_assoc, List.append_cancel_left_eq] at h
  obtain ⟨hfile, h⟩ := Label.braced_append_inj h
  obtain ⟨hstartLine, h⟩ := digits_comma_inj (List.append_cancel_left h)
  obtain ⟨hstartColumn, h⟩ := digits_comma_inj h
  obtain ⟨hendLine, h⟩ := digits_comma_inj h
  have hendColumn := Nat.repr_injective (String.toList_inj.mp h)
  obtain ⟨_, _, _, _⟩ := r
  obtain ⟨_, _, _, _⟩ := r'
  rw [UInt32.toNat_inj] at hstartLine hstartColumn hendLine hendColumn
  subst hstartLine hstartColumn hendLine hendColumn
  exact ⟨hfile, rfl⟩

end Region

/-! ## Labels of writers -/

namespace Writer

/-- Labels stay, and keys are told apart as before. -/
structure Grows (w v : Writer) : Prop where
  le : w.labels.Le v.labels
  faithful : w.labels.Faithful → v.labels.Faithful

theorem Grows.refl (w : Writer) : w.Grows w := ⟨.refl _, id⟩

theorem Grows.trans {w v u : Writer} (h : w.Grows v) (k : v.Grows u) : w.Grows u :=
  ⟨h.le.trans k.le, fun hw => k.faithful (h.faithful hw)⟩

theorem grows_put (w : Writer) (l : Line) : w.Grows (w.put l) := by
  constructor
  · rw [put_labels]
    exact .refl _
  · rw [put_labels]
    exact id

theorem lookup_eq (w : Writer) (key : String) : (w.lookup key).1 = (w.labels.lookup key).1 ∧
    (w.lookup key).2.labels = (w.labels.lookup key).2 := by
  unfold lookup LabelTable.lookup
  cases w.labels.find? key with
  | some label => exact ⟨rfl, rfl⟩
  | none => exact ⟨rfl, put_labels _ _⟩

theorem grows_lookup (w : Writer) (key : String) : w.Grows (w.lookup key).2 := by
  constructor
  · rw [(w.lookup_eq key).2]
    intro other label hlabel
    by_cases hother : other = key
    · rw [hother] at hlabel ⊢
      rw [LabelTable.lookup, hlabel]
      exact hlabel
    · rw [LabelTable.find?_lookup_of_ne _ hother, hlabel]
  · rw [(w.lookup_eq key).2]
    exact fun hw => hw.lookup key

theorem find?_lookup (w : Writer) (key : String) :
    (w.lookup key).2.labels.find? key = some (w.lookup key).1.label := by
  rw [(w.lookup_eq key).1, (w.lookup_eq key).2, LabelTable.find?_lookup]

theorem grows_enterFolders (w : Writer) (child : Label) (folders : List Path) :
    w.Grows (w.enterFolders child folders) := by
  induction folders generalizing w child with
  | nil => exact .refl w
  | cons folder rest ih =>
    have hlookup := w.grows_lookup (folder.text ++ ";folder")
    rw [enterFolders]
    by_cases hname : folder.text = ""
    · rw [if_pos hname]
      exact .refl w
    · rw [if_neg hname]
      generalize w.lookup (folder.text ++ ";folder") = found at hlookup
      obtain ⟨label | label, v⟩ := found
      · exact hlookup.trans (v.grows_put _)
      · exact ((hlookup.trans (v.grows_put _)).trans (grows_put _ _)).trans (ih _ label)

theorem grows_fileLabel (w : Writer) (text : String) (populate : Bool) :
    w.Grows (w.fileLabel text populate).2 := by
  have hlookup := w.grows_lookup (text ++ ";sourcefile")
  unfold fileLabel
  generalize w.lookup (text ++ ";sourcefile") = found at hlookup
  obtain ⟨label | label, v⟩ := found
  · exact hlookup
  · by_cases hpopulate : populate = true
    · simp only [if_pos hpopulate]
      exact (hlookup.trans (v.grows_put _)).trans (grows_enterFolders _ label _)
    · simp only [if_neg hpopulate]
      exact hlookup

theorem fileLabel_eq (w : Writer) (text : String) (populate : Bool) :
    (w.fileLabel text populate).1 = (w.lookup (text ++ ";sourcefile")).1.label := by
  unfold fileLabel
  rcases w.lookup (text ++ ";sourcefile") with ⟨label | label, v⟩
  · rfl
  · cases populate <;> rfl

/-- What a writer finds is a number if its table tells keys apart. -/
theorem number_of_find? {w : Writer} (hw : w.labels.Faithful) {key : String} {l : Label}
    (hl : w.labels.find? key = some l) : ∃ n, l = .number n := by
  obtain ⟨n, hn, -⟩ := hw.bound key l hl
  exact ⟨n, hn⟩

theorem fileLabel_number {w : Writer} (hw : w.labels.Faithful) (text : String) (populate : Bool) :
    ∃ n, (w.fileLabel text populate).1 = .number n := by
  rw [fileLabel_eq]
  exact number_of_find? ((w.grows_lookup _).faithful hw) (w.find?_lookup _)

end Writer

namespace FileWriter

variable {w v : FileWriter} {l : Label} {text path : String}

/-- The writer attributes places to a file with this text. -/
structure On (w : FileWriter) (text : String) : Prop where
  lines : w.target.lines = some (.ofText text)
  faithful : w.writer.labels.Faithful
  file : ∃ n, w.target.label = .number n

theorem on_source {w : Writer} (hw : w.labels.Faithful) (path text : String) :
    (source w path (.ofText text)).On text :=
  ⟨rfl, (w.grows_fileLabel path true).faithful hw, Writer.fileLabel_number hw path true⟩

theorem On.grows (hw : w.On text) (hgrows : w.writer.Grows v.writer)
    (htarget : v.target = w.target) : v.On text :=
  ⟨htarget ▸ hw.lines, hgrows.faithful hw.faithful, htarget ▸ hw.file⟩

/-! ## Locations -/

/-- What is looked up, and described where it was not known, has its label from then on. -/
theorem bound_of_described {key : String} {describe : Label → Fact}
    (h : (match w.writer.lookup key with
      | (.existing label, writer) => (label, { w with writer })
      | (.created label, writer) => (label, { w with writer := writer.fact (describe label) })) =
      (l, v)) :
    w.writer.Grows v.writer ∧ v.target = w.target ∧ v.writer.labels.find? key = some l := by
  have hgrows := w.writer.grows_lookup key
  have hfind := w.writer.find?_lookup key
  rcases hlookup : w.writer.lookup key with ⟨label | label, u⟩ <;>
    rw [hlookup] at h hgrows hfind <;> cases h
  · exact ⟨hgrows, rfl, hfind⟩
  · refine ⟨hgrows.trans (u.grows_put _), rfl, ?_⟩
    exact (u.grows_put _).le _ _ hfind

theorem bound_of_locationIn {file : Label} {r : Region} (h : w.locationIn file r = (l, v)) :
    w.writer.Grows v.writer ∧ v.target = w.target ∧
      v.writer.labels.find? (r.key file) = some l :=
  bound_of_described h

theorem bound_of_unknownFile (h : w.unknownFile = (l, v)) :
    v.writer.labels.find? ";sourcefile" = some l :=
  (bound_of_described h).2.2

theorem bound_of_unknownLocation (h : w.unknownLocation = (l, v)) :
    ∃ file, v.writer.labels.find? ";sourcefile" = some file ∧
      v.writer.labels.find? (Region.whole.key file) = some l := by
  unfold unknownLocation at h
  have hfile := bound_of_unknownFile (Prod.eta w.unknownFile).symm
  obtain ⟨hgrows, -, hl⟩ := bound_of_locationIn h
  exact ⟨_, hgrows.le _ _ hfile, hl⟩

theorem location?_eq {lines : LineTable} (hlines : w.target.lines = some lines) {s : Span}
    (hs : s.isUndefined = false) :
    w.location? s = (Region.ofSpan? lines s).map (w.locationIn w.target.label) := by
  rw [location?, hlines]
  simp only [hs]
  rfl

/-- Some time before, with the same target, this label was given. -/
def Gave (w : FileWriter) (ask : FileWriter → Option (Label × FileWriter)) (l : Label) : Prop :=
  ∃ v u, v.target = w.target ∧ ask v = some (l, u) ∧ u.writer.labels.Le w.writer.labels

theorem Gave.location {lines : LineTable} (hlines : w.target.lines = some lines)
    (hincreasing : lines.Increasing) {s : Span} (hs : s.isUndefined = false)
    (h : w.Gave (·.location? s) l) : ∃ r, Region.ofSpan? lines s = some r ∧ r.Tells lines s ∧
      w.writer.labels.find? (r.key w.target.label) = some l := by
  obtain ⟨v, u, htarget, hask, hle⟩ := h
  obtain ⟨r, hr, htells⟩ := Region.exists_tells hincreasing s
  rw [← htarget] at hlines
  have hask : v.location? s = some (l, u) := hask
  rw [location?_eq hlines hs, hr, Option.map_some, Option.some.injEq] at hask
  obtain ⟨-, -, hfind⟩ := bound_of_locationIn hask
  exact ⟨r, hr, htells, hle _ _ (htarget ▸ hfind)⟩

/-- The label of the whole file or the unknown one has a key without lines and columns. -/
theorem Gave.whole (hw : w.On text)
    (h : w.Gave (fun v => some v.wholeFile) l ∨ w.Gave (fun v => some v.unknownLocation) l) :
    ∃ n, w.writer.labels.find? (Region.whole.key (.number n)) = some l := by
  rcases h with ⟨v, u, htarget, hask, hle⟩ | ⟨v, u, htarget, hask, hle⟩
  · obtain ⟨n, hn⟩ := hw.file
    obtain ⟨-, -, hfind⟩ := bound_of_locationIn (Option.some.inj hask)
    rw [htarget, hn] at hfind
    exact ⟨n, hle _ _ hfind⟩
  · obtain ⟨file, hfile, hfind⟩ := bound_of_unknownLocation (Option.some.inj hask)
    obtain ⟨n, rfl⟩ := Writer.number_of_find? hw.faithful (hle _ _ hfile)
    exact ⟨n, hle _ _ hfind⟩

end FileWriter

end Trap

end IrFacts
