import IrFacts.Proofs.Ir.RoundTrip
import IrFacts.Proofs.Program.SymbolTable
import IrFacts.Proofs.Trap.SpanLocations
import IrFacts.Run.Load

/-!
# Locations by decoded tables

A document brings the line tables of its files along, and no check looks at them. Whatever the
table, the search ends at a line that does not start behind the offset, or else at the first line.
So columns are told without loss for all spans just if the line that is found for the offset zero
starts there, as it does in every table whose first line starts at zero.
-/

set_option autoImplicit false

namespace IrFacts

namespace LineTable

variable {t : LineTable} {offset later : UInt32}

/-- The line of the offset is in the table and does not start behind the offset. -/
def Measures (t : LineTable) (offset : UInt32) : Prop :=
  ∃ start, t.starts[t.lineOf offset]? = some start ∧ start ≤ offset

instance (t : LineTable) (offset : UInt32) : Decidable (t.Measures offset) :=
  match h : t.starts[t.lineOf offset]? with
  | some start => decidable_of_iff (start ≤ offset) (by simp [Measures, h])
  | none => .isFalse (by simp [Measures, h])

def found (t : LineTable) (offset : UInt32) : Nat :=
  t.narrow offset t.starts.size 0 t.starts.size

/-! ## The search in any table -/

theorem narrow_halves {base size : Nat} (hmany : ¬size ≤ 1) (hrange : base + size ≤ t.starts.size) :
    ∃ middle, t.starts[base + size / 2]? = some middle ∧ ∀ offset fuel,
      t.narrow offset (fuel + 1) base size =
        if offset < middle then t.narrow offset fuel base (size - size / 2)
        else t.narrow offset fuel (base + size / 2) (size - size / 2) := by
  obtain ⟨middle, hmiddle⟩ : ∃ middle, t.starts[base + size / 2]? = some middle :=
    ⟨_, Array.getElem?_eq_getElem (by omega)⟩
  refine ⟨middle, hmiddle, fun offset fuel => ?_⟩
  rw [narrow, if_neg hmany]
  simp only [hmiddle, decide_eq_true_eq]
  split <;> rfl

/-- The search moves on only to lines that do not start behind the offset. -/
theorem narrow_moves {fuel base size : Nat} (hpos : 0 < size)
    (hrange : base + size ≤ t.starts.size) : t.narrow offset fuel base size = base ∨
      ∃ start, t.starts[t.narrow offset fuel base size]? = some start ∧ start ≤ offset := by
  induction fuel generalizing base size with
  | zero => exact .inl rfl
  | succ fuel ih =>
    by_cases hone : size ≤ 1
    · rw [narrow, if_pos hone]
      exact .inl rfl
    · obtain ⟨middle, hmiddle, hnarrow⟩ := narrow_halves hone hrange
      rw [hnarrow]
      by_cases hbehind : offset < middle
      · rw [if_pos hbehind]
        exact ih (by omega) (by omega)
      · rw [if_neg hbehind]
        have hupper : base + size / 2 + (size - size / 2) ≤ t.starts.size := by omega
        rcases ih (by omega) hupper with hstays | hmoves
        · rw [hstays]
          exact .inr ⟨middle, hmiddle, UInt32.not_lt.mp hbehind⟩
        · exact .inr hmoves

theorem found_moves (hlines : 0 < t.starts.size) (offset : UInt32) : t.found offset = 0 ∨
    ∃ start, t.starts[t.found offset]? = some start ∧ start ≤ offset :=
  narrow_moves hlines (Nat.le_of_eq (Nat.zero_add _))

/-- Where the line that is left starts behind the offset, it is the first one. -/
theorem lineOf_eq_found (hlines : 0 < t.starts.size) (offset : UInt32) :
    t.lineOf offset = t.found offset := by
  obtain ⟨start, hstart⟩ : ∃ start, t.starts[t.found offset]? = some start := by
    rcases found_moves hlines offset with hfirst | ⟨start, hstart, -⟩
    · rw [hfirst]
      exact ⟨_, Array.getElem?_eq_getElem hlines⟩
    · exact ⟨start, hstart⟩
  have hline : t.lineOf offset = if offset < start then t.found offset - 1 else t.found offset := by
    rw [lineOf, ← found]
    simp only [hstart]
  rw [hline]
  by_cases hbehind : offset < start
  · rcases found_moves hlines offset with hfirst | ⟨start', hstart', hle⟩
    · rw [if_pos hbehind, hfirst]
    · rw [hstart, Option.some.injEq] at hstart'
      exact absurd (hstart' ▸ hbehind) (UInt32.not_lt.mpr hle)
  · rw [if_neg hbehind]

theorem Measures.lines (h : t.Measures offset) : 0 < t.starts.size := by
  obtain ⟨start, hstart, -⟩ := h
  exact Nat.zero_lt_of_lt (Array.getElem?_eq_some_iff.mp hstart).1

theorem measures_of_first (h : t.starts[0]? = some 0) (offset : UInt32) : t.Measures offset := by
  have hlines : 0 < t.starts.size := (Array.getElem?_eq_some_iff.mp h).1
  rw [Measures, lineOf_eq_found hlines]
  rcases found_moves hlines offset with hfirst | hmoves
  · exact ⟨0, hfirst ▸ h, UInt32.zero_le⟩
  · exact hmoves

/-- The search for a later offset goes the same way as far as it meets lines that start behind
both offsets or behind neither, and moves on where the other one does not. -/
theorem narrow_mono (hle : offset ≤ later) {fuel base size : Nat} (hpos : 0 < size)
    (hrange : base + size ≤ t.starts.size)
    (h : ∃ start, t.starts[t.narrow offset fuel base size]? = some start ∧ start ≤ offset) :
    ∃ start, t.starts[t.narrow later fuel base size]? = some start ∧ start ≤ later := by
  have hhere {line : Nat} (h : ∃ start, t.starts[line]? = some start ∧ start ≤ offset) :
      ∃ start, t.starts[line]? = some start ∧ start ≤ later := by
    obtain ⟨start, hstart, hbefore⟩ := h
    exact ⟨start, hstart, UInt32.le_trans hbefore hle⟩
  induction fuel generalizing base size with
  | zero => exact hhere h
  | succ fuel ih =>
    by_cases hone : size ≤ 1
    · rw [narrow, if_pos hone] at h ⊢
      exact hhere h
    · obtain ⟨middle, hmiddle, hnarrow⟩ := narrow_halves hone hrange
      rw [hnarrow] at h ⊢
      by_cases hbehind : later < middle
      · rw [if_pos (UInt32.lt_of_le_of_lt hle hbehind)] at h
        rw [if_pos hbehind]
        exact ih (by omega) (by omega) h
      · rw [if_neg hbehind]
        have hupper : base + size / 2 + (size - size / 2) ≤ t.starts.size := by omega
        rcases narrow_moves (by omega) hupper with hstays | hmoves
        · rw [hstays]
          exact ⟨middle, hmiddle, UInt32.not_lt.mp hbehind⟩
        · exact hmoves

theorem Measures.mono (h : t.Measures offset) (hle : offset ≤ later) : t.Measures later := by
  have hlines := h.lines
  rw [Measures, lineOf_eq_found hlines] at h ⊢
  exact narrow_mono hle hlines (Nat.le_of_eq (Nat.zero_add _)) h

theorem measures_zero : t.Measures 0 ↔ t.starts[t.lineOf 0]? = some 0 := by
  constructor
  · rintro ⟨start, hstart, hle⟩
    rw [hstart, UInt32.le_zero_iff.mp hle]
  · intro h
    exact ⟨0, h, UInt32.le_refl 0⟩

theorem Measures.columnOf? (h : t.Measures offset) :
    ∃ column, t.columnOf? offset = some column := by
  obtain ⟨start, hstart, -⟩ := h
  exact ⟨offset - start, by rw [LineTable.columnOf?, hstart, Option.map_some]⟩

theorem within (levels : Nat) (t : LineTable) :
    Json.Within (levels + 1) LineTable.decode t.encode t := by
  have hstarts : Json.Within (levels + 1) (Json.Decoder.list Json.Decoder.uint32) t.encode
      t.starts.toList := .listOf (Json.Within.uint32 levels) t.starts.toList
  exact hstarts.map fun starts => LineTable.mk starts.toArray

theorem depth_encode (t : LineTable) : t.encode.depth = 1 := by
  have hall (starts : List UInt32) :
      Json.Value.depthOfAll (starts.map fun start => .integer start.toNat) = 0 := by
    induction starts with
    | nil => rfl
    | cons start rest ih => rw [List.map_cons, Json.Value.depthOfAll, ih]; rfl
  rw [encode, Json.Value.depth, hall]

theorem decodeText_encode (t : LineTable) :
    Json.decodeText LineTable.decode t.encode.render = .ok t := by
  have hreads : RoundTrips LineTable.decode encode fun _ => True :=
    .of_within fun t _ => within Json.Decoder.maxDepth t
  refine hreads.decodeText_encode t trivial ?_
  rw [depth_encode]
  decide

end LineTable

/-! ## Documents -/

/-- The document with another table for one of its files. -/
def Document.withTable (d : Document) (id : FileId) (lines : LineTable) : Document :=
  { d with files := d.files.modify id.index.toNat fun entry => { entry with lines } }

namespace Document

variable {d : Document} {p : Program} {id : FileId} {entry : FileEntry}

theorem links_withTable (d : Document) (id : FileId) (lines : LineTable) :
    (d.withTable id lines).links = d.links := by
  have hdeclarations : (d.withTable id lines).files.map (·.declarations) =
      d.files.map (·.declarations) := by
    refine List.ext_getElem? fun i => ?_
    rw [withTable, List.getElem?_map, List.getElem?_modify, List.getElem?_map]
    cases d.files[i]? with
    | none => rfl
    | some entry => by_cases hi : id.index.toNat = i <;> simp [hi]
  have hfiles (files : List FileEntry) :
      files.flatMap (fun file => file.declarations.map Link.decl) =
        (files.map (·.declarations)).flatMap (·.map Link.decl) := (List.flatMap_map ..).symm
  rw [links, links, hfiles, hdeclarations, ← hfiles]
  rfl

/-- No check looks at a table: with any other one the document is accepted as well. -/
theorem accepts_withTable (h : Program.ofDocument d = .ok p) (hentry : p.file? id = some entry)
    (lines : LineTable) : ∃ q, Program.ofDocument (d.withTable id lines) = .ok q ∧
      q.file? id = some { entry with lines } := by
  obtain ⟨hleads, hp⟩ := Program.leads_of_ofDocument h
  have hfile : d.files[id.index.toNat]? = some entry := by
    rw [← (hp ▸ Program.established_ofDocument hleads : d.Established p).files,
      Array.getElem?_toList]
    exact hentry
  have hleads' : ∀ link ∈ (d.withTable id lines).links, link.Leads (d.withTable id lines) := by
    rw [links_withTable]
    intro link hlink
    have hlink := hleads link hlink
    cases link with
    | decl => exact hlink
    | file => simpa [Link.Leads, withTable] using hlink
  refine ⟨(d.withTable id lines).given.withIndex.addBuiltins, ?_, ?_⟩
  · rw [Program.ofDocument_eq, Program.check_eq, Program.forM_check_eq_ok.mpr hleads', Except.map]
  · rw [Program.file?, ← Array.getElem?_toList, (Program.established_ofDocument hleads').files,
      withTable, List.getElem?_modify, hfile]
    simp

end Document

/-! ## Locations -/

namespace Trap.FileWriter

variable {w : FileWriter} {lines : LineTable}

/-- The span has a location, and for it only starts of lines that are in the table are taken from
offsets, none of them from a smaller one. -/
structure Computes (w : FileWriter) (s : Span) : Prop where
  ends : (w.location? s).isSome = true
  measures : ∀ lines, w.target.lines = some lines → s.isUndefined = false →
    lines.Measures s.first ∧ lines.Measures s.last

theorem first_le_last (s : Span) : s.first ≤ s.last := by
  rw [UInt32.le_iff_toNat_le, s.toNat_first, s.toNat_last, Span.beginsAt, Span.endsAt]
  omega

theorem computes_iff (hlines : w.target.lines = some lines) (s : Span) :
    w.Computes s ↔ (s.isUndefined = false → lines.Measures s.first) := by
  refine ⟨fun h hs => (h.measures lines hlines hs).1, fun h => ?_⟩
  by_cases hs : s.isUndefined = true
  · refine ⟨?_, fun _ _ hdefined => by simp [hs] at hdefined⟩
    rw [location?, hlines]
    simp only [hs, if_true, Option.isSome_some]
  · rw [Bool.not_eq_true] at hs
    have hfirst := h hs
    have hlast := hfirst.mono (first_le_last s)
    obtain ⟨column, hcolumn⟩ := hfirst.columnOf?
    obtain ⟨column', hcolumn'⟩ := hlast.columnOf?
    refine ⟨?_, fun other hother _ => ?_⟩
    · rw [location?_eq hlines hs, Region.ofSpan?, hcolumn, hcolumn']
      rfl
    · rw [hlines, Option.some.injEq] at hother
      exact hother ▸ ⟨hfirst, hlast⟩

end Trap.FileWriter

/-- Whatever a text brings along as the table of a file: if the first line starts at zero, then
every span has its location, and no start is taken from a smaller offset. In general this is so
just if the line of the offset zero starts there. No check sees to either: every table is read as
it is, and with any table the document is accepted. -/
theorem Program.location_computes {text : String} {p : Program} (h : Program.ofText text = .ok p)
    {id : FileId} {entry : FileEntry} (hentry : p.file? id = some entry) :
    (entry.lines.starts[0]? = some 0 →
      ∀ w : Trap.FileWriter, w.target.lines = some entry.lines → ∀ s, w.Computes s) ∧
    (∀ w : Trap.FileWriter, w.target.lines = some entry.lines →
      ((∀ s, w.Computes s) ↔ entry.lines.starts[entry.lines.lineOf 0]? = some 0)) ∧
    (∀ lines : LineTable, Json.decodeText LineTable.decode lines.encode.render = .ok lines) ∧
    ∃ d, Json.decodeText Document.decode text = .ok d ∧ Program.ofDocument d = .ok p ∧
      ∀ lines, ∃ q, Program.ofDocument (d.withTable id lines) = .ok q ∧
        q.file? id = some { entry with lines } := by
  refine ⟨fun hfirst w hw s => ?_, fun w hw => ⟨fun hall => ?_, fun hzero s => ?_⟩,
    LineTable.decodeText_encode, ?_⟩
  · exact (Trap.FileWriter.computes_iff hw s).mpr fun _ => LineTable.measures_of_first hfirst _
  · exact LineTable.measures_zero.mp
      ((Trap.FileWriter.computes_iff hw ⟨0, 0⟩).mp (hall ⟨0, 0⟩) (by decide))
  · refine (Trap.FileWriter.computes_iff hw s).mpr fun _ => ?_
    exact (LineTable.measures_zero.mpr hzero).mono UInt32.zero_le
  · unfold Program.ofText at h
    cases hdecode : Json.decodeText Document.decode text with
    | error fault =>
      rw [hdecode] at h
      cases h
    | ok d =>
      rw [hdecode] at h
      cases hp : Program.ofDocument d with
      | error e => simp [hp, Except.mapError] at h
      | ok q =>
        obtain rfl : q = p := by simpa [hp, Except.mapError] using h
        exact ⟨d, rfl, hp, Document.accepts_withTable hp hentry⟩

/-- A file whose table has its starts out of order. -/
def windingText : String := "[[[\"a.kt\",\"\",[],[],[0,9,4]]]]"

theorem Program.location_computes_winding : ∃ p entry, Program.ofText windingText = .ok p ∧
    p.file? ⟨0⟩ = some entry ∧ entry.lines.starts = #[0, 9, 4] ∧
    ∀ s, (Trap.FileWriter.source (.ofSink .unbounded) entry.path entry.lines).Computes s := by
  have hall : (Program.ofText windingText).toOption.any (fun p =>
      (p.file? ⟨0⟩).any fun entry => entry.lines.starts = #[0, 9, 4]) = true := by decide +kernel
  cases hp : Program.ofText windingText with
  | error e =>
    rw [hp] at hall
    cases hall
  | ok p =>
    rw [hp] at hall
    simp only [Except.toOption, Option.any_some, Option.any_eq_true, decide_eq_true_eq] at hall
    obtain ⟨entry, hentry, hstarts⟩ := hall
    obtain ⟨hcomputes, -⟩ := Program.location_computes hp hentry
    exact ⟨p, entry, rfl, hentry, hstarts, hcomputes (by rw [hstarts]; rfl) _ rfl⟩

/-- A table without lines, and one whose only line starts behind an offset. -/
example : ¬(LineTable.mk #[]).Measures 0 ∧ ¬(LineTable.mk #[5]).Measures 2 := by decide

end IrFacts
