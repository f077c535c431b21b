import IrFacts.Proofs.Run.Declarations
import IrFacts.Proofs.Run.Sink
import Std.Data.String.ToNat

/-!
# Labels are defined once, before they are used

The numbers of the labels are handed out and defined in one order, each key is
defined once, and a label stands in a fact or in a key only behind its
definition. The invariant is that of the scope in which a label is known once
its number was handed out.
-/

set_option autoImplicit false

namespace IrFacts

namespace Trap

namespace Line

def defined? : Line → Option Label
  | .define label _ => some label
  | .fresh label => some label
  | _ => none

def key? : Line → Option String
  | .define _ key => some key
  | _ => none

/-- Whether a line uses a label: as an argument, or in braces in a key. -/
def Mentions (label : Label) : Line → Prop
  | .fact f => .label label ∈ f.args
  | .define _ key => label.braced.toList <:+: key.toList
  | _ => False

end Line

def definedIn (lines : List Line) : List Label := lines.filterMap Line.defined?

structure DefinedFirst (lines : List Line) : Prop where
  /-- The definitions carry consecutive numbers from the first one on. -/
  consecutive : definedIn lines =
    (List.range (definedIn lines).length).map fun i => .number (LabelTable.first + i)
  keys : (lines.filterMap Line.key?).Nodup
  earlier : ∀ before line after n, lines = before ++ line :: after →
    line.Mentions (.number n) → Label.number n ≠ .placeholder → .number n ∈ definedIn before

end Trap

/-! ## Labels in braces -/

namespace Label

theorem notMem_digits {c : Char} (hc : c.isDigit = false) (n : Nat) : c ∉ (toString n).toList := by
  rw [Nat.toString_eq_repr, Nat.toList_repr]
  intro h
  rw [Nat.isDigit_of_mem_toDigits (by decide) (by decide) h] at hc
  cases hc

theorem braced_number (n : Nat) :
    (number n).braced.toList = '\x7b' :: '#' :: ((toString n).toList ++ ['\x7d']) := by
  simp [braced, render]

/-- Two texts in front of the same sign, which is in neither, are the same. -/
theorem eq_of_prefix_of_notMem {α : Type} {c : α} {as bs rest : List α} (ha : c ∉ as)
    (hb : c ∉ bs) (h : as ++ [c] <+: bs ++ c :: rest) : as = bs := by
  induction as generalizing bs with
  | nil =>
    cases bs with
    | nil => rfl
    | cons b bs =>
      have := (List.cons_prefix_cons.mp h).1
      exact absurd (this ▸ List.mem_cons_self) hb
  | cons a as ih =>
    cases bs with
    | nil =>
      have := (List.cons_prefix_cons.mp h).1
      exact absurd (this ▸ List.mem_cons_self) ha
    | cons b bs =>
      obtain ⟨rfl, htail⟩ := List.cons_prefix_cons.mp h
      rw [ih (fun hm => ha (List.mem_cons_of_mem _ hm))
        (fun hm => hb (List.mem_cons_of_mem _ hm)) htail]

theorem eq_of_braced_prefix {m n : Nat} {rest : List Char}
    (h : (number m).braced.toList <+: (number n).braced.toList ++ rest) : m = n := by
  rw [braced_number, braced_number] at h
  simp only [List.cons_append, List.cons_prefix_cons, true_and, List.append_assoc] at h
  have hdigits := eq_of_prefix_of_notMem (notMem_digits (by decide) m)
    (notMem_digits (by decide) n) h
  exact Nat.repr_injective (String.toList_inj.mp hdigits)

end Label

theorem infix_of_infix_append {α : Type} {c : α} {cs as bs : List α} (ha : c ∉ as)
    (h : c :: cs <:+: as ++ bs) : c :: cs <:+: bs := by
  induction as with
  | nil => exact h
  | cons a as ih =>
    rcases List.infix_cons_iff.mp h with h | h
    · have := (List.cons_prefix_cons.mp h).1
      exact absurd (this ▸ List.mem_cons_self) ha
    · exact ih (fun hm => ha (List.mem_cons_of_mem _ hm)) h

namespace Scope

/-- Only labels that were handed out may be mentioned, and only they stand in
braces. -/
def handedOut : Scope where
  given _ l := l = .placeholder
  base := LabelTable.first
  errors := 0
  letter c := c ≠ '\x7b'
  relation _ := True
  given_mono _ _ _ _ h := h
  given_placeholder _ _ := rfl
  letter_of_ne _ h := h
  relation_of_notMem _ _ := trivial

theorem knows_of_spelled {s : Session} {cs : List Char} {n : Nat}
    (h : handedOut.Spelled s cs) (hn : (Label.number n).braced.toList <:+: cs) :
    handedOut.Knows s (.number n) := by
  induction h with
  | nil =>
    have := List.eq_nil_of_infix_nil hn
    rw [Label.braced_number] at this
    cases this
  | letter hc _ ih =>
    rw [Label.braced_number] at hn ih
    exact ih (@infix_of_infix_append _ _ _ [_] _ (by simpa using Ne.symm hc) hn)
  | @label l cs hl _ ih =>
    obtain ⟨m, rfl⟩ : ∃ m, l = .number m := by
      rcases hl with rfl | ⟨m, rfl, -⟩
      · exact ⟨0, rfl⟩
      · exact ⟨m, rfl⟩
    by_cases hmn : n = m
    · exact hmn ▸ hl
    · have htail : (Label.number n).braced.toList <:+:
          '#' :: ((toString m).toList ++ ['\x7d']) ++ cs := by
        rw [Label.braced_number m, List.cons_append] at hn
        rcases List.infix_cons_iff.mp hn with hpre | hn
        · rw [← List.cons_append, ← Label.braced_number] at hpre
          exact absurd (Label.eq_of_braced_prefix hpre) hmn
        · exact hn
      rw [Label.braced_number] at htail ih
      refine ih (infix_of_infix_append ?_ htail)
      simpa using Label.notMem_digits (c := '\x7b') (by decide) m

theorem eq_placeholder_or_lt {s : Session} {n : Nat} (h : handedOut.Knows s (.number n))
    (hn : Label.number n ≠ .placeholder) : LabelTable.first ≤ n ∧ n < s.table.next := by
  rcases h with h | ⟨m, hm, hb, hlt⟩
  · exact absurd h hn
  · cases hm
    exact ⟨hb, hlt⟩

end Scope

/-! ## One event -/

namespace Event

open Trap

theorem mentions_of_lines {s : Session} {e : Event} (ha : Scope.handedOut.Admits s e)
    {line : Line} (hl : line ∈ e.lines s) {n : Nat} (hm : line.Mentions (.number n)) :
    Scope.handedOut.Knows s (.number n) := by
  cases e with
  | fact f =>
    rw [List.mem_singleton.mp hl] at hm
    exact ha.2.of_mem hm
  | lookup key asker =>
    simp only [lines] at hl
    split at hl
    · cases hl
    · rw [List.mem_singleton.mp hl] at hm
      exact Scope.knows_of_spelled ha hm
  | fresh =>
    rw [List.mem_singleton.mp hl] at hm
    cases hm
  | report problem location =>
    simp only [lines, diagnostic] at hl
    have hargs : ∀ full, .label (.number n) ∈ (Fact.diagnostics .star diagnosticSource
        problem.severity.code "" problem.message full location).args →
        Label.number n = location := by
      intro full h
      simpa [Fact.diagnostics] using h
    split at hl
    · cases hl
    · rw [List.mem_singleton.mp hl] at hm
      rw [hargs _ hm]
      exact ha
    · rw [List.mem_singleton.mp hl] at hm
      rw [hargs _ hm]
      exact ha
  | _ => cases hl

theorem defined_lines (e : Event) (s : Session) : definedIn (e.lines s) =
    (List.range' s.table.next ((e.step s).table.next - s.table.next)).map Label.number := by
  rw [step_table]
  cases e with
  | lookup key asker =>
    simp only [lines, onTable, LabelTable.lookup]
    cases s.table.find? key with
    | some l => simp [definedIn]
    | none => simp [definedIn, Line.defined?]
  | fresh => simp [lines, onTable, LabelTable.fresh, definedIn, Line.defined?]
  | report problem location =>
    simp only [lines, diagnostic, onTable, Nat.sub_self, List.range'_zero, List.map_nil]
    split <;> rfl
  | _ => simp [lines, onTable, definedIn, Line.defined?]

theorem lines_eq (e : Event) (s : Session) : e.lines s = [] ∨ ∃ line, e.lines s = [line] := by
  cases e with
  | lookup key asker =>
    simp only [lines]
    split <;> simp
  | report problem location =>
    simp only [lines, diagnostic]
    split <;> simp
  | _ => simp [lines]

/-! ## A run -/

theorem defined_linesOf (es : List Event) (s : Session) : definedIn (linesOf es s) =
    (List.range' s.table.next ((run es s).table.next - s.table.next)).map Label.number := by
  induction es generalizing s with
  | nil => simp [linesOf, run, definedIn]
  | cons e es ih =>
    obtain ⟨m, hm⟩ := Nat.exists_eq_add_of_le (run_table_next [e] s)
    obtain ⟨n, hn⟩ := Nat.exists_eq_add_of_le (run_table_next es (e.step s))
    simp only [run] at hm
    have hhead := defined_lines e s
    have htail := ih (e.step s)
    rw [hm, Nat.add_sub_cancel_left] at hhead
    rw [hn, Nat.add_sub_cancel_left, hm] at htail
    rw [definedIn] at hhead htail
    rw [linesOf, definedIn, List.filterMap_append, hhead, htail, ← List.map_append,
      List.range'_append_1, run, hn, hm, Nat.add_assoc, Nat.add_sub_cancel_left]

theorem find?_of_run {es : List Event} {s : Session} {key : String}
    (h : (run es s).table.find? key = none) : s.table.find? key = none := by
  cases hk : s.table.find? key with
  | none => rfl
  | some l =>
    rw [run_find? es hk] at h
    cases h

theorem keys_lines {e : Event} {s : Session} {key : String}
    (h : key ∈ (e.lines s).filterMap Line.key?) :
    s.table.find? key = none ∧ (e.step s).table.find? key ≠ none := by
  cases e with
  | lookup other asker =>
    simp only [lines] at h
    split at h
    · cases h
    · next hf =>
      obtain rfl := List.mem_singleton.mp h
      refine ⟨hf, ?_⟩
      rw [step_table, onTable, LabelTable.find?_lookup]
      exact Option.some_ne_none _
  | report problem location =>
    simp only [lines, diagnostic] at h
    split at h <;> simp [Line.key?] at h
  | _ => simp [lines, Line.key?] at h

theorem keys_linesOf (es : List Event) (s : Session) :
    ((linesOf es s).filterMap Line.key?).Nodup ∧
      ∀ key ∈ (linesOf es s).filterMap Line.key?, s.table.find? key = none := by
  induction es generalizing s with
  | nil => simp [linesOf]
  | cons e es ih =>
    obtain ⟨hnodup, hunbound⟩ := ih (e.step s)
    rw [linesOf, List.filterMap_append]
    constructor
    · refine List.nodup_append.mpr ⟨?_, hnodup, fun key hk other ho he => ?_⟩
      · rcases lines_eq e s with h | ⟨line, h⟩ <;> rw [h]
        · exact List.nodup_nil
        · rw [List.filterMap_cons]
          split <;> simp
      · exact (keys_lines hk).2 (he ▸ hunbound other ho)
    · intro key hk
      rcases List.mem_append.mp hk with hk | hk
      · exact (keys_lines hk).1
      · exact @find?_of_run [e] s key (hunbound key hk)

theorem lt_or_mem_defined {e : Event} {s : Session} {n : Nat}
    (h : n < (e.step s).table.next) :
    n < s.table.next ∨ .number n ∈ definedIn (e.lines s) := by
  by_cases hs : n < s.table.next
  · exact Or.inl hs
  · rw [defined_lines]
    refine Or.inr (List.mem_map.mpr ⟨n, List.mem_range'_1.mpr ?_, rfl⟩)
    omega

theorem earlier_linesOf {es : List Event} {s : Session} (ha : Scope.handedOut.AdmitsAll s es)
    {before after : List Line} {line : Line} (hl : linesOf es s = before ++ line :: after)
    {n : Nat} (hm : line.Mentions (.number n)) (hn : Label.number n ≠ .placeholder) :
    LabelTable.first ≤ n ∧ (n < s.table.next ∨ .number n ∈ definedIn before) := by
  induction es generalizing s before with
  | nil => simp [linesOf] at hl
  | cons e es ih =>
    rw [linesOf] at hl
    rcases List.append_eq_append_iff.mp hl with ⟨more, rfl, hrest⟩ | ⟨more, hb, hrest⟩
    · obtain ⟨hle, hlt⟩ := ih ha.2 hrest
      rw [definedIn, List.filterMap_append, List.mem_append]
      rcases hlt with hlt | hmem
      · exact ⟨hle, (lt_or_mem_defined hlt).imp_right Or.inl⟩
      · exact ⟨hle, Or.inr (Or.inr hmem)⟩
    · cases more with
      | nil =>
        have hrest : linesOf es (e.step s) = [] ++ line :: after := by simpa using hrest.symm
        obtain ⟨hle, hlt⟩ := ih ha.2 hrest
        simp only [definedIn, List.filterMap_nil, List.not_mem_nil, or_false] at hlt
        rw [List.append_nil] at hb
        exact ⟨hle, hb ▸ lt_or_mem_defined hlt⟩
      | cons first more =>
        -- The line is one of the first event, which mentions what is known before it.
        obtain ⟨rfl, -⟩ := List.cons_eq_cons.mp hrest
        have hknows := mentions_of_lines ha.1 (by simp [hb]) hm
        obtain ⟨hle, hlt⟩ := Scope.eq_placeholder_or_lt hknows hn
        exact ⟨hle, Or.inl hlt⟩

theorem definedFirst_linesOf {es : List Event} {s : Session}
    (ha : Scope.handedOut.AdmitsAll s es) (hs : s.table.next = LabelTable.first) :
    DefinedFirst (linesOf es s) := by
  have hdefined := defined_linesOf es s
  constructor
  · rw [hdefined, List.length_map, List.length_range', List.range'_eq_map_range, List.map_map, hs]
    rfl
  · exact (keys_linesOf es s).1
  · intro before line after n hl hm hn
    obtain ⟨hle, hlt | hmem⟩ := earlier_linesOf ha hl hm hn
    · omega
    · exact hmem

end Event

/-! ## A source file -/

namespace Walk

open Extract Trap

/-- A file in which no name and no path contains an opening brace defines its
labels once and before they are used, whenever its extraction ends. -/
theorem extractFile_definedFirst {p : Program} (hnames : ∀ name ∈ p.names, '\x7b' ∉ name.toList)
    {path : String} (hpath : '\x7b' ∉ path.toList) {sink : Sink} (hsink : sink.NeverRefuses)
    (hnew : sink.taken = []) (lines : LineTable) (counter : Counter) (queue : ClassQueue)
    (dependencies : Option (List DeclId)) (typeFuel walkFuel : Nat) (file : FileId)
    {s' : Session}
    (h : Ends p { file := .source (.ofSink sink) path lines, counter, queue, dependencies }
      ((walk (projection typeFuel) walkFuel).extractFile file) () s') :
    s'.file.writer.sink.text =
        String.join (s'.file.writer.sink.lines.map fun l => l.render ++ "\n") ∧
      DefinedFirst s'.file.writer.sink.lines := by
  -- Before the target file got its label, nothing was written at all.
  let s : Session :=
    { file := { writer := .ofSink sink, target := { path, label := .placeholder, lines } }
      counter, queue, dependencies }
  have hs : Scope.handedOut.Sound s :=
    ⟨Nat.le_refl _, Nat.zero_le _, by simp [s, Session.table, Writer.ofSink, LabelTable.empty],
      Scope.knows_placeholder (Nat.zero_le _), by simp [s], by simp [s]⟩
  have hallows : Scope.handedOut.Allows p :=
    ⟨fun name hn => Scope.letters_of_plain (hnames name hn), .inl rfl, .inl rfl⟩
  have hopen : Ends p s (onFile (·.retarget path (some lines) true)) s.file.target
      { file := .source (.ofSink sink) path lines, counter, queue, dependencies } := rfl
  obtain ⟨-, es, hes⟩ := Scope.trace_retarget (Scope.letters_of_plain hpath) hs hopen
  have hcovers := Scope.coversWalk_walk (σ := .handedOut) (fun _ _ => trivial) hallows
    (Scope.covers_projection hallows typeFuel) walkFuel
  obtain ⟨⟨⟨fs, hfs⟩, -⟩, -⟩ := Scope.does_extractFile (fun _ _ => trivial) hallows hcovers file
    (hes.sound hs) _ _ h
  obtain ⟨hadmits, -, hrun⟩ := hes.append hfs
  have hwrote := Event.run_wrote (es ++ fs) s
  rw [hrun] at hwrote
  obtain ⟨hlines, hwhole⟩ := hwrote.lines hsink rfl hnew
  refine ⟨hwhole.text, ?_⟩
  rw [hlines]
  exact Event.definedFirst_linesOf hadmits rfl

def oneClass : Program :=
  { files := #[{ path := "a.kt", declarations := [⟨0⟩] }]
    declarations := #[{ parent := .file ⟨0⟩, kind := .class { name := "C" } }]
    classIndex := [("C", ⟨0⟩)] }

theorem extractFile_definedFirst_oneClass : ∃ s',
    Ends oneClass
      { file := .source (.ofSink .unbounded) "a.kt" .single, counter := {}, queue := {} }
      ((walk (projection 8) 8).extractFile ⟨0⟩) () s' ∧
    s'.file.writer.sink.text =
        String.join (s'.file.writer.sink.lines.map fun l => l.render ++ "\n") ∧
      DefinedFirst s'.file.writer.sink.lines := by
  obtain ⟨_, s', h⟩ := ends_of_isOk (p := oneClass)
    (s := { file := .source (.ofSink .unbounded) "a.kt" .single, counter := {}, queue := {} })
    (m := (walk (projection 8) 8).extractFile ⟨0⟩) (by decide +kernel)
  exact ⟨s', h, extractFile_definedFirst (by decide +kernel) (by decide) (fun _ _ => rfl) rfl
    .single {} {} none 8 8 ⟨0⟩ h⟩

end Walk

end IrFacts
