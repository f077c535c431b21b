import IrFacts.Proofs.Trap.Commands
import Std.Data.String.ToInt
import Std.Data.String.ToNat

/-!
# Traps are read back

The text of a trap tells what was written. A text may hold any sign, so lines and
arguments cannot be told apart by newlines and commas alone: the reader counts
quotes, and a newline or a comma divides only where an even number of them was
read before it. Quotes inside a text are written twice and so leave the count even.
-/

set_option autoImplicit false

namespace IrFacts.Trap

/-! ## The reader -/

/-- The pieces of a text, where `ends` tells from what was read of a piece whether a sign
ends it. -/
def pieces (ends : List Char → Char → Bool) : List Char → List Char → List (List Char)
  | read, [] => [read]
  | read, c :: rest =>
    if ends read c then read :: pieces ends [] rest else pieces ends (read ++ [c]) rest

/-- Whether the end of a text lies inside quotes. -/
def quoted (read : List Char) : Bool := read.count '"' % 2 = 1

/-- A newline ends a comment wherever it stands, and any other line outside of quotes. -/
def endsLine (read : List Char) (c : Char) : Bool :=
  c = '\n' && (read.head? = some '/' || !quoted read)

def endsArg (read : List Char) (c : Char) : Bool := c = ',' && !quoted read

/-- What stands in front of the quote that ends a text. -/
def unquote : List Char → Option (List Char)
  | [] => none
  | ['"'] => some []
  | '"' :: '"' :: rest => (unquote rest).map ('"' :: ·)
  | c :: rest => if c = '"' then none else (unquote rest).map (c :: ·)

def Arg.read : List Char → Option Arg
  | [] => none
  | '"' :: rest => (unquote rest).map fun s => .text (.ofList s)
  | '#' :: digits => (String.ofList digits).toNat?.map fun n => .label (.number n)
  | ['*'] => some (.label .star)
  | cs => (String.ofList cs).toInt?.map .int

def Arg.readAll : List Char → Option (List Arg)
  | [] => some []
  | cs => (pieces endsArg [] cs).mapM read

def Fact.read (cs : List Char) : Option Fact :=
  let relation := String.ofList (cs.takeWhile (· ≠ '('))
  match cs.dropWhile (· ≠ '(') with
  | '(' :: rest =>
    if rest.getLast? = some ')' then
      (Arg.readAll rest.dropLast).map fun args => { relation, args }
    else none
  | _ => none

def Line.read : List Char → Option Line
  | '/' :: '/' :: ' ' :: text => some (.comment (.ofList text))
  | '#' :: rest =>
    match (String.ofList (rest.takeWhile (· ≠ '='))).toNat?, rest.dropWhile (· ≠ '=') with
    | some n, ['=', '*'] => some (.fresh (.number n))
    | some n, '=' :: '@' :: '"' :: key =>
      (unquote key).map fun key => .define (.number n) (.ofList key)
    | _, _ => none
  | cs => (Fact.read cs).map .fact

/-- The lines of a text, of which the last has its newline like the others. -/
def readLines (text : String) : Option (List Line) :=
  let lines := pieces endsLine [] text.toList
  if lines.getLast? = some [] then lines.dropLast.mapM Line.read else none

/-! ## What can be read -/

def Arg.Plain : Arg → Prop
  | .label (.named _) => False
  | .float _ => False
  | _ => True

def Fact.Plain (f : Fact) : Prop := f.relation ∈ relations ∧ ∀ a ∈ f.args, a.Plain

def Line.Plain : Line → Prop
  | .comment text => '\n' ∉ text.toList
  | .define label key => (∃ n, label = .number n) ∧ '"' ∉ key.toList
  | .fresh label => ∃ n, label = .number n
  | .fact f => f.Plain

/-- Keys are not escaped and comments not quoted, so a quote in a key and a newline in a
comment are left out. -/
def Command.Plain : Command → Prop
  | .labelFor key => '"' ∉ key.toList
  | .fresh => True
  | .comment text => '\n' ∉ text.toList
  | .fact f => f.Plain

theorem Command.plain_lines {t : LabelTable} {c : Command} (hc : c.Plain) :
    ∀ l ∈ c.lines t, l.Plain := by
  intro l hl
  cases c with
  | labelFor key =>
    rw [lines] at hl
    split at hl
    · cases hl
    · cases List.mem_singleton.mp hl
      exact ⟨⟨_, rfl⟩, hc⟩
  | fresh =>
    cases List.mem_singleton.mp hl
    exact ⟨_, rfl⟩
  | comment text =>
    cases List.mem_singleton.mp hl
    exact hc
  | fact f =>
    cases List.mem_singleton.mp hl
    exact hc

theorem plain_said {t : LabelTable} {cs : List Command} (h : ∀ c ∈ cs, c.Plain) :
    ∀ l ∈ said t cs, l.Plain := by
  intro l hl
  obtain ⟨c, hc, t, hl⟩ := mem_said hl
  exact Command.plain_lines (h c hc) l hl

/-! ## Pieces -/

/-- No sign ends a piece before its end, whatever was read before. -/
def Whole (ends : List Char → Char → Bool) (piece : List Char) : Prop :=
  ∀ before c after, piece = before ++ c :: after → ends before c = false

theorem pieces_whole {ends : List Char → Char → Bool} {piece : List Char}
    (h : Whole ends piece) (rest : List Char) :
    pieces ends [] (piece ++ rest) = pieces ends piece rest := by
  suffices hs : ∀ before after, piece = before ++ after →
      pieces ends before (after ++ rest) = pieces ends piece rest from hs [] piece rfl
  intro before after
  induction after generalizing before with
  | nil => intro hpiece; simp [hpiece]
  | cons c after ih =>
    intro hpiece
    rw [List.cons_append, pieces, h before c after hpiece]
    exact ih (before ++ [c]) (by simp [hpiece])

theorem pieces_end {ends : List Char → Char → Bool} {piece : List Char} {c : Char}
    (h : Whole ends piece) (hc : ends piece c = true) (rest : List Char) :
    pieces ends [] (piece ++ c :: rest) = piece :: pieces ends [] rest := by
  rw [pieces_whole h, pieces, if_pos hc]

/-! ## Quotes -/

/-- A text outside of quotes at its end, in which a sign stands inside of quotes only. -/
structure Enclosed (sign : Char) (text : List Char) : Prop where
  even : quoted text = false
  inside : ∀ before after, text = before ++ sign :: after → quoted before = true

theorem quoted_append (a b : List Char) : quoted (a ++ b) = (quoted a ^^ quoted b) := by
  simp only [quoted, List.count_append]
  grind

theorem quoted_cons (c : Char) (cs : List Char) :
    quoted (c :: cs) = (decide (c = '"') ^^ quoted cs) := by
  rw [← List.singleton_append, quoted_append]
  by_cases hc : c = '"' <;> simp [quoted, hc]

theorem Enclosed.append {sign : Char} {a b : List Char} (ha : Enclosed sign a)
    (hb : Enclosed sign b) : Enclosed sign (a ++ b) where
  even := by rw [quoted_append, ha.even, hb.even]; rfl
  inside before after h := by
    rcases List.append_eq_append_iff.mp h with ⟨mid, rfl, hb'⟩ | ⟨mid, ha', hmid⟩
    · rw [quoted_append, ha.even, hb.inside mid after hb']
      rfl
    · cases mid with
      | nil =>
        rw [List.append_nil] at ha'
        rw [← ha', ha.even]
        exact absurd (hb.inside [] after hmid.symm) (by decide)
      | cons c mid =>
        obtain ⟨rfl, -⟩ := List.cons_eq_cons.mp hmid
        exact ha.inside before mid ha'

theorem enclosed_of_notMem {sign : Char} {text : List Char} (hq : '"' ∉ text)
    (hs : sign ∉ text) : Enclosed sign text where
  even := by simp [quoted, List.count_eq_zero.mpr hq]
  inside before after h := absurd (by simp [h]) hs

theorem quoted_doubleQuotes (s : List Char) : quoted (doubleQuotes s) = false := by
  induction s with
  | nil => rfl
  | cons c s ih =>
    rw [doubleQuotes]
    split <;> simp [quoted_cons, *]

theorem quoted_before {sign : Char} (hs : sign ≠ '"') {s before after : List Char}
    (h : doubleQuotes s = before ++ sign :: after) : quoted before = false := by
  induction s generalizing before with
  | nil => simp [doubleQuotes] at h
  | cons c s ih =>
    rw [doubleQuotes] at h
    split at h
    · match before with
      | [] => exact absurd (List.cons_eq_cons.mp h).1.symm hs
      | [_] => exact absurd (List.cons_eq_cons.mp (List.cons_eq_cons.mp h).2).1.symm hs
      | a :: b :: before =>
        simp only [List.cons_append, List.cons.injEq] at h
        obtain ⟨rfl, rfl, htail⟩ := h
        simp [quoted_cons, ih htail]
    · next hc =>
      match before with
      | [] => rfl
      | a :: before =>
        obtain ⟨rfl, htail⟩ := List.cons_eq_cons.mp h
        simp [quoted_cons, hc, ih htail]

def quotes (s : List Char) : List Char := '"' :: (doubleQuotes s ++ ['"'])

theorem enclosed_quotes {sign : Char} (hs : sign ≠ '"') (s : List Char) :
    Enclosed sign (quotes s) where
  even := by
    rw [quotes, quoted_cons, quoted_append, quoted_doubleQuotes]
    rfl
  inside before after h := by
    cases before with
    | nil => exact absurd (List.cons_eq_cons.mp h).1.symm hs
    | cons a before =>
      obtain ⟨rfl, htail⟩ := List.cons_eq_cons.mp h
      have hbefore : quoted before = false := by
        rcases List.append_eq_append_iff.mp htail with ⟨mid, rfl, hlast⟩ | ⟨mid, hs', hmid⟩
        · cases mid with
          | nil => exact absurd (List.cons_eq_cons.mp hlast).1.symm hs
          | cons c mid => simp at hlast
        · cases mid with
          | nil => exact absurd (List.cons_eq_cons.mp hmid).1 hs
          | cons c mid =>
            obtain ⟨rfl, -⟩ := List.cons_eq_cons.mp hmid
            exact quoted_before hs hs'
      rw [quoted_cons, hbefore]
      rfl

theorem unquote_quotes (s : List Char) : unquote (doubleQuotes s ++ ['"']) = some s := by
  induction s with
  | nil => rfl
  | cons c s ih =>
    by_cases hc : c = '"'
    · subst hc
      simp [doubleQuotes, unquote, ih]
    · rw [doubleQuotes, if_neg hc, List.cons_append, unquote, if_neg hc, ih]
      · rfl
      · simp
      · simp [hc]

theorem doubleQuotes_of_notMem {s : List Char} (h : '"' ∉ s) : doubleQuotes s = s := by
  induction s with
  | nil => rfl
  | cons c s ih =>
    rw [List.mem_cons, not_or] at h
    rw [doubleQuotes, if_neg (Ne.symm h.1), ih h.2]

/-! ## Arguments -/

theorem notMem_nat {c : Char} (hc : c.isDigit = false) (n : Nat) : c ∉ (toString n).toList := by
  rw [Nat.toString_eq_repr, Nat.toList_repr]
  intro h
  rw [Nat.isDigit_of_mem_toDigits (by decide) (by decide) h] at hc
  cases hc

theorem notMem_int {c : Char} (hc : c.isDigit = false) (hsign : c ≠ '-') (n : Int) :
    c ∉ (toString n).toList := by
  cases n with
  | ofNat n => exact notMem_nat hc n
  | negSucc n =>
    rw [show toString (Int.negSucc n) = "-" ++ toString (n + 1) from rfl, String.toList_append,
      List.mem_append, not_or]
    exact ⟨by simpa using hsign, notMem_nat hc _⟩

def Divides (c : Char) : Prop := c = '\n' ∨ c = ','

theorem Arg.enclosed {sign : Char} (hs : Divides sign) {a : Arg} (ha : a.Plain) :
    Enclosed sign a.render.toList := by
  have hquote : sign ≠ '"' := by rcases hs with rfl | rfl <;> decide
  have hdigit : sign.isDigit = false := by rcases hs with rfl | rfl <;> decide
  have hminus : sign ≠ '-' := by rcases hs with rfl | rfl <;> decide
  have hhash : sign ∉ ['#'] := by rcases hs with rfl | rfl <;> decide
  have hstar : sign ∉ ['*'] := by rcases hs with rfl | rfl <;> decide
  cases a with
  | label l =>
    cases l with
    | number n =>
      rw [render, Label.render, String.toList_append]
      exact (enclosed_of_notMem (by decide) hhash).append
        (enclosed_of_notMem (notMem_nat (by decide) n) (notMem_nat hdigit n))
    | named name => cases ha
    | star => exact enclosed_of_notMem (by decide) hstar
  | text s =>
    have hrender : (Arg.text s).render.toList = quotes s.toList := by
      simp [render, escape, quotes]
    rw [hrender]
    exact enclosed_quotes hquote _
  | int n =>
    exact enclosed_of_notMem (notMem_int (by decide) (by decide) n) (notMem_int hdigit hminus n)
  | float x => cases ha

theorem toString_int_ne_nil (n : Int) : (toString n).toList ≠ [] := by
  cases n with
  | ofNat n => exact fun h => Nat.repr_ne_empty (String.toList_inj.mp h)
  | negSucc n => simp [show toString (Int.negSucc n) = "-" ++ toString (n + 1) from rfl]

theorem Arg.read_render {a : Arg} (ha : a.Plain) : Arg.read a.render.toList = some a := by
  cases a with
  | label l =>
    cases l with
    | number n =>
      have hrender : (Arg.label (.number n)).render.toList = '#' :: (toString n).toList := by
        simp [render, Label.render]
      rw [hrender, read, String.ofList_toList, Nat.toString_eq_repr, Nat.toNat?_repr]
      rfl
    | named name => cases ha
    | star => rfl
  | text s =>
    have hrender : (Arg.text s).render.toList = quotes s.toList := by
      simp [render, escape, quotes]
    rw [hrender, quotes, read, unquote_quotes, Option.map_some, String.ofList_toList]
  | int n =>
    rw [render]
    have hquote := notMem_int (c := '"') (by decide) (by decide) n
    have hhash := notMem_int (c := '#') (by decide) (by decide) n
    have hstar := notMem_int (c := '*') (by decide) (by decide) n
    unfold read
    split
    · next h => exact absurd h (toString_int_ne_nil n)
    · next h => exact absurd (h ▸ List.mem_cons_self) hquote
    · next h => exact absurd (h ▸ List.mem_cons_self) hhash
    · next h => exact absurd (h ▸ List.mem_cons_self) hstar
    · rw [String.ofList_toList]
      exact congrArg (Option.map Arg.int) (Int.toInt?_repr n)
  | float x => cases ha

theorem Arg.render_ne_nil {a : Arg} (ha : a.Plain) : a.render.toList ≠ [] := by
  intro h
  have hread := read_render ha
  rw [h, show read [] = none from rfl] at hread
  cases hread

theorem Arg.mapM_read {args : List Arg} (h : ∀ a ∈ args, a.Plain) :
    (args.map fun a => a.render.toList).mapM read = some args := by
  induction args with
  | nil => rfl
  | cons a args ih =>
    rw [List.map_cons, List.mapM_cons, read_render (h a List.mem_cons_self),
      ih fun b hb => h b (List.mem_cons_of_mem _ hb)]
    rfl

/-! ## Facts -/

theorem name_of_relation : ∀ r ∈ relations, ∀ c ∈ r.toList, c.isAlpha ∨ c = '_' := by
  have hall : (relations.all fun r => r.toList.all fun c => c.isAlpha || c == '_') = true := by
    decide +kernel
  simpa only [List.all_eq_true, Bool.or_eq_true, beq_iff_eq] using hall

theorem notMem_relation {r : String} (hr : r ∈ relations) {c : Char} (hc : c.isAlpha = false)
    (hline : c ≠ '_') : c ∉ r.toList := by
  intro h
  rcases name_of_relation r hr c h with hname | hname
  · rw [hname] at hc
    cases hc
  · exact hline hname

theorem enclosed_intercalate {parts : List (List Char)}
    (h : ∀ part ∈ parts, Enclosed '\n' part) : Enclosed '\n' ([','].intercalate parts) := by
  induction parts with
  | nil => exact enclosed_of_notMem (by simp) (by simp)
  | cons part parts ih =>
    have hpart := h part List.mem_cons_self
    cases parts with
    | nil => rwa [List.intercalate_singleton]
    | cons next parts =>
      rw [List.intercalate_cons_cons]
      exact (hpart.append (enclosed_of_notMem (by decide) (by decide))).append
        (ih fun q hq => h q (List.mem_cons_of_mem _ hq))

theorem Enclosed.whole_arg {part : List Char} (h : Enclosed ',' part) : Whole endsArg part := by
  intro before c after hpart
  by_cases hc : c = ','
  · subst hc
    simp [endsArg, h.inside before after hpart]
  · simp [endsArg, hc]

theorem pieces_intercalate {parts : List (List Char)} (hparts : parts ≠ [])
    (h : ∀ part ∈ parts, Enclosed ',' part) :
    pieces endsArg [] ([','].intercalate parts) = parts := by
  induction parts with
  | nil => exact absurd rfl hparts
  | cons part parts ih =>
    have hpart := h part List.mem_cons_self
    cases parts with
    | nil =>
      have hend := pieces_whole hpart.whole_arg []
      rw [List.append_nil] at hend
      rw [List.intercalate_singleton, hend, pieces]
    | cons next parts =>
      rw [List.intercalate_cons_cons, List.append_assoc, List.singleton_append,
        pieces_end hpart.whole_arg (by simp [endsArg, hpart.even]),
        ih (List.cons_ne_nil _ _) fun q hq => h q (List.mem_cons_of_mem _ hq)]

theorem Fact.toList_render (f : Fact) :
    f.render.toList = f.relation.toList ++
      '(' :: ([','].intercalate (f.args.map fun a => a.render.toList) ++ [')']) := by
  simp [render, String.toList_intercalate, Function.comp_def]

theorem Fact.enclosed {f : Fact} (hf : f.Plain) : Enclosed '\n' f.render.toList := by
  have hargs : Enclosed '\n' ([','].intercalate (f.args.map fun a => a.render.toList)) := by
    apply enclosed_intercalate
    intro part hpart
    obtain ⟨a, ha, rfl⟩ := List.mem_map.mp hpart
    exact Arg.enclosed (.inl rfl) (hf.2 a ha)
  have hname : Enclosed '\n' f.relation.toList :=
    enclosed_of_notMem (notMem_relation hf.1 (by decide) (by decide))
      (notMem_relation hf.1 (by decide) (by decide))
  have hopen : Enclosed '\n' ['('] := enclosed_of_notMem (by decide) (by decide)
  have hclose : Enclosed '\n' [')'] := enclosed_of_notMem (by decide) (by decide)
  rw [toList_render]
  exact hname.append (hopen.append (hargs.append hclose))

/-- A text ends in front of the first sign that is not in it. -/
theorem span_stop {c : Char} {cs : List Char} (h : c ∉ cs) (rest : List Char) :
    (cs ++ c :: rest).takeWhile (· ≠ c) = cs ∧
      (cs ++ c :: rest).dropWhile (· ≠ c) = c :: rest := by
  have hcs : ∀ d ∈ cs, decide (d ≠ c) = true := fun d hd => by
    rw [decide_eq_true_eq]
    rintro rfl
    exact h hd
  constructor
  · rw [List.takeWhile_append_of_pos hcs, List.takeWhile_cons_of_neg (by simp), List.append_nil]
  · rw [List.dropWhile_append_of_pos hcs, List.dropWhile_cons_of_neg (by simp)]

theorem Arg.readAll_render {args : List Arg} (h : ∀ a ∈ args, a.Plain) :
    readAll ([','].intercalate (args.map fun a => a.render.toList)) = some args := by
  cases args with
  | nil => rfl
  | cons a rest =>
    have hparts : ∀ part ∈ (a :: rest).map (fun a => a.render.toList), Enclosed ',' part := by
      intro part hpart
      obtain ⟨b, hb, rfl⟩ := List.mem_map.mp hpart
      exact enclosed (.inr rfl) (h b hb)
    have hne : [','].intercalate ((a :: rest).map fun a => a.render.toList) ≠ [] := by
      have hfirst := render_ne_nil (h a List.mem_cons_self)
      cases rest with
      | nil => simpa using hfirst
      | cons b rest => simp [List.intercalate_cons_cons]
    rw [readAll, pieces_intercalate (by simp) hparts]
    · exact mapM_read h
    · exact hne

theorem Fact.head?_render {f : Fact} (hf : f.Plain) {c : Char}
    (h : f.render.toList.head? = some c) : c.isAlpha ∨ c = '_' ∨ c = '(' := by
  rw [toList_render, List.head?_append] at h
  cases hname : f.relation.toList.head? with
  | none =>
    rw [hname] at h
    exact .inr (.inr (Option.some.inj h).symm)
  | some d =>
    rw [hname] at h
    cases h
    rcases name_of_relation _ hf.1 c (List.mem_of_mem_head? hname) with hc | hc
    · exact .inl hc
    · exact .inr (.inl hc)

theorem Fact.read_render {f : Fact} (hf : f.Plain) : Fact.read f.render.toList = some f := by
  have hname := span_stop (notMem_relation hf.1 (c := '(') (by decide) (by decide))
  rw [toList_render, read, (hname _).1, (hname _).2, String.ofList_toList]
  simp only [List.getLast?_append, List.getLast?_singleton, Option.some_or, if_true,
    List.dropLast_concat, Arg.readAll_render hf.2, Option.map_some]

/-! ## Lines -/

theorem Line.toList_define {n : Nat} {key : String} (hkey : '"' ∉ key.toList) :
    (Line.define (.number n) key).render.toList =
      '#' :: ((toString n).toList ++ '=' :: '@' :: quotes key.toList) := by
  simp [render, Label.render, quotes, doubleQuotes_of_notMem hkey]

theorem Line.toList_fresh (n : Nat) :
    (Line.fresh (.number n)).render.toList = '#' :: ((toString n).toList ++ ['=', '*']) := by
  simp [render, Label.render]

theorem Line.toList_comment (text : String) :
    (Line.comment text).render.toList = '/' :: '/' :: ' ' :: text.toList := by
  simp [render]

theorem Enclosed.whole_line {line : List Char} (h : Enclosed '\n' line)
    (hhead : line.head? ≠ some '/') : Whole endsLine line := by
  intro before c after hline
  by_cases hc : c = '\n'
  · subst hc
    have hslash : before.head? ≠ some '/' := by
      cases before with
      | nil => simp
      | cons d before => simpa [hline] using hhead
    simp [endsLine, h.inside before after hline, hslash]
  · simp [endsLine, hc]

theorem Enclosed.ends_line {line : List Char} (h : Enclosed '\n' line) :
    endsLine line '\n' = true := by
  simp [endsLine, h.even]

/-- The newline behind a line is the first sign that ends it. -/
theorem Line.ended {l : Line} (hl : l.Plain) :
    Whole endsLine l.render.toList ∧ endsLine l.render.toList '\n' = true := by
  have hhash : Enclosed '\n' ['#'] := enclosed_of_notMem (by decide) (by decide)
  have hdigits (n : Nat) : Enclosed '\n' (toString n).toList :=
    enclosed_of_notMem (notMem_nat (by decide) n) (notMem_nat (by decide) n)
  cases l with
  | comment text =>
    rw [toList_comment]
    refine ⟨fun before c after hline => ?_, rfl⟩
    have hc : c ≠ '\n' := by
      rintro rfl
      have hmem : '\n' ∈ '/' :: '/' :: ' ' :: text.toList := by rw [hline]; simp
      exact absurd hmem (by simpa [Plain] using hl)
    simp [endsLine, hc]
  | define label key =>
    obtain ⟨⟨n, rfl⟩, hkey⟩ := hl
    rw [toList_define hkey]
    have hmark : Enclosed '\n' ['=', '@'] := enclosed_of_notMem (by decide) (by decide)
    have henclosed : Enclosed '\n'
        ('#' :: ((toString n).toList ++ '=' :: '@' :: quotes key.toList)) :=
      hhash.append ((hdigits n).append (hmark.append (enclosed_quotes (by decide) _)))
    exact ⟨henclosed.whole_line (by simp), henclosed.ends_line⟩
  | fresh label =>
    obtain ⟨n, rfl⟩ := hl
    rw [toList_fresh]
    have henclosed : Enclosed '\n' ('#' :: ((toString n).toList ++ ['=', '*'])) :=
      hhash.append ((hdigits n).append (enclosed_of_notMem (by decide) (by decide)))
    exact ⟨henclosed.whole_line (by simp), henclosed.ends_line⟩
  | fact f =>
    have henclosed := Fact.enclosed hl
    refine ⟨henclosed.whole_line ?_, henclosed.ends_line⟩
    intro hslash
    exact absurd (Fact.head?_render hl hslash) (by decide)

theorem Line.read_render {l : Line} (hl : l.Plain) : Line.read l.render.toList = some l := by
  have hnumber (n : Nat) : (toString n).toNat? = some n := Nat.toNat?_repr n
  cases l with
  | comment text => rw [toList_comment, read, String.ofList_toList]
  | define label key =>
    obtain ⟨⟨n, rfl⟩, hkey⟩ := hl
    have hdigits := span_stop (notMem_nat (c := '=') (by decide) n) ('@' :: quotes key.toList)
    rw [toList_define hkey, read, hdigits.1, hdigits.2, String.ofList_toList, hnumber, quotes]
    simp only [unquote_quotes, Option.map_some, String.ofList_toList]
  | fresh label =>
    obtain ⟨n, rfl⟩ := hl
    have hdigits := span_stop (notMem_nat (c := '=') (by decide) n) ['*']
    rw [toList_fresh, read, hdigits.1, hdigits.2, String.ofList_toList, hnumber]
    rfl
  | fact f =>
    have hhead {c : Char} (h : f.render.toList.head? = some c) := Fact.head?_render hl h
    rw [show (Line.fact f).render = f.render from rfl]
    unfold read
    split
    · next h => exact absurd (hhead (by rw [h]; rfl)) (by decide)
    · next h => exact absurd (hhead (by rw [h]; rfl)) (by decide)
    · rw [Fact.read_render hl]
      rfl

/-! ## Traps -/

theorem pieces_lines {ls : List Line} (h : ∀ l ∈ ls, l.Plain) :
    pieces endsLine [] (ls.flatMap fun l => l.render.toList ++ ['\n']) =
      ls.map (fun l => l.render.toList) ++ [[]] := by
  induction ls with
  | nil => rfl
  | cons l ls ih =>
    obtain ⟨hwhole, hends⟩ := Line.ended (h l List.mem_cons_self)
    rw [List.flatMap_cons, List.append_assoc, List.singleton_append, pieces_end hwhole hends,
      ih fun m hm => h m (List.mem_cons_of_mem _ hm)]
    rfl

theorem Line.mapM_read {ls : List Line} (h : ∀ l ∈ ls, l.Plain) :
    (ls.map fun l => l.render.toList).mapM read = some ls := by
  induction ls with
  | nil => rfl
  | cons l ls ih =>
    rw [List.map_cons, List.mapM_cons, read_render (h l List.mem_cons_self),
      ih fun m hm => h m (List.mem_cons_of_mem _ hm)]
    rfl

theorem readLines_text {ls : List Line} (h : ∀ l ∈ ls, l.Plain) :
    readLines (String.join (ls.map fun l => l.render ++ "\n")) = some ls := by
  have htext : (String.join (ls.map fun l => l.render ++ "\n")).toList =
      ls.flatMap fun l => l.render.toList ++ ['\n'] := by
    simp [String.toList_join, List.flatMap_map]
  rw [readLines, htext, pieces_lines h]
  simp only [List.getLast?_append, List.getLast?_singleton, Option.some_or, if_true,
    List.dropLast_concat, Line.mapM_read h]

/-- Reading a trap gives back what was said, so no two sequences of facts have one text. -/
theorem written_readBack {sink : Sink} (hs : sink.NeverRefuses) (ht : sink.taken = [])
    {cs : List Command} (hcs : ∀ c ∈ cs, c.Plain) :
    readLines (written sink cs).text = some (said .empty cs) ∧
      ∀ ds : List Command, (∀ d ∈ ds, d.Plain) →
        (written sink ds).text = (written sink cs).text → said .empty ds = said .empty cs ∧
          ds.filterMap Command.fact? = cs.filterMap Command.fact? := by
  have hread {cs : List Command} (hcs : ∀ c ∈ cs, c.Plain) :
      readLines (written sink cs).text = some (said .empty cs) := by
    rw [text_written hs ht]
    exact readLines_text (plain_said hcs)
  refine ⟨hread hcs, fun ds hds htext => ?_⟩
  have hsame : said .empty ds = said .empty cs := by
    have hds := hread hds
    rw [htext, hread hcs] at hds
    exact (Option.some.inj hds).symm
  refine ⟨hsame, ?_⟩
  rw [← facts_said .empty ds, hsame, facts_said]

/-- A key over two lines that is asked for twice, a comment with one quote, and a text that
holds quotes, commas, newlines and what looks like a comment. -/
def tangled : List Command :=
  [.labelFor "file;a\nb", .comment "one \" and no other", .fresh,
    .fact ⟨"diagnostics", [.label (.number 101), .int (-3),
      .text "\",\"\n// no comment\")\n", .text "", .label .star]⟩,
    .labelFor "file;a\nb", .fact ⟨"hasLocation", []⟩]

theorem written_readBack_tangled :
    Sink.unbounded.NeverRefuses ∧ (∀ c ∈ tangled, c.Plain) ∧
      readLines (written .unbounded tangled).text = some
        [.define (.number 100) "file;a\nb", .comment "one \" and no other", .fresh (.number 101),
          .fact ⟨"diagnostics", [.label (.number 101), .int (-3),
            .text "\",\"\n// no comment\")\n", .text "", .label .star]⟩,
          .fact ⟨"hasLocation", []⟩] ∧
      ∀ ds : List Command, (∀ d ∈ ds, d.Plain) →
        (written .unbounded ds).text = (written .unbounded tangled).text →
          said .empty ds = said .empty tangled ∧
            ds.filterMap Command.fact? = tangled.filterMap Command.fact? := by
  have hs : Sink.unbounded.NeverRefuses := fun _ _ => rfl
  have hplain : ∀ c ∈ tangled, c.Plain := by
    simp [tangled, Command.Plain, Fact.Plain, Arg.Plain, relations]
  obtain ⟨hread, hsame⟩ := written_readBack hs rfl hplain
  exact ⟨hs, hplain, hread, hsame⟩

end IrFacts.Trap
