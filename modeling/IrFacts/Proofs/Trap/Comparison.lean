import IrFacts.Proofs.Output.Vouching
import IrFacts.Proofs.Trap.ReadBack
import IrFacts.Trap.Equivalence

/-!
# What a comparison of traps can tell

Traps are written by facts and compared by rows, the texts between two newlines. A
text that goes over several rows can bring about a row that looks like a comment or
that ends in a carriage return, and then differences are lost. Where no text does,
two traps are equivalent just when they say the same up to the text of comments.
-/

set_option autoImplicit false

namespace IrFacts.Trap

/-! ## Rows -/

def rows (cs : List Char) : List (List Char) := pieces (fun _ c => c = '\n') [] cs

def unrows (rs : List (List Char)) : List Char := rs.flatMap (· ++ ['\n'])

theorem newline_notMem_rows {cs r : List Char} (hr : r ∈ rows cs) : '\n' ∉ r := by
  suffices h : ∀ read, '\n' ∉ read → r ∈ pieces (fun _ c => c = '\n') read cs → '\n' ∉ r from
    h [] (by simp) hr
  clear hr
  induction cs with
  | nil =>
    intro read hread hr
    exact List.mem_singleton.mp hr ▸ hread
  | cons c cs ih =>
    intro read hread hr
    rw [pieces] at hr
    split at hr
    · rcases List.mem_cons.mp hr with rfl | hr
      · exact hread
      · exact ih [] (by simp) hr
    · next hc => exact ih (read ++ [c]) (by simpa [hread, eq_comm] using hc) hr

theorem unrows_rows (cs : List Char) : unrows (rows cs) = cs ++ ['\n'] := by
  suffices h : ∀ read, unrows (pieces (fun _ c => c = '\n') read cs) = read ++ cs ++ ['\n'] from
    h []
  induction cs with
  | nil => simp [pieces, unrows]
  | cons c cs ih =>
    intro read
    rw [pieces]
    split
    · next hc =>
      rw [unrows, List.flatMap_cons, ← unrows, ih]
      simp [of_decide_eq_true hc]
    · rw [ih]
      simp

theorem unrows_append (rs ts : List (List Char)) : unrows (rs ++ ts) = unrows rs ++ unrows ts :=
  List.flatMap_append

theorem rows_between {cs r : List Char} (hr : r ∈ rows cs) :
    ∃ before after, cs ++ ['\n'] = before ++ (r ++ '\n' :: after) ∧
      (before = [] ∨ ∃ front, before = front ++ ['\n']) := by
  obtain ⟨rs, ts, hrows⟩ := List.append_of_mem hr
  have hcs := unrows_rows cs
  rw [hrows, unrows_append] at hcs
  refine ⟨unrows rs, unrows ts, by simp [← hcs, unrows], ?_⟩
  rcases List.eq_nil_or_concat rs with rfl | ⟨front, last, rfl⟩
  · exact .inl rfl
  · exact .inr ⟨unrows front ++ last, by simp [unrows]⟩

theorem eq_of_newline {cs front after : List Char} (h : cs ++ ['\n'] = front ++ after)
    (hafter : after ≠ []) : cs = front ++ after.dropLast := by
  have hcs := congrArg List.dropLast h
  rwa [List.dropLast_concat, List.dropLast_append_of_ne_nil hafter] at hcs

/-- A text all of whose rows are compared as they are written. -/
structure Steady (cs : List Char) : Prop where
  noReturn : ¬['\r', '\n'] <:+: cs
  noComment : ¬['\n', '/', '/'] <:+: cs

theorem Steady.row {cs r : List Char} (h : Steady cs) (hfirst : ¬['/', '/'] <+: cs)
    (hlast : cs.getLast? ≠ some '\r') (hr : r ∈ rows cs) :
    ¬['/', '/'] <+: r ∧ r.getLast? ≠ some '\r' := by
  obtain ⟨before, after, hcs, hbefore⟩ := rows_between hr
  constructor
  · rintro ⟨rest, rfl⟩
    rcases hbefore with rfl | ⟨front, rfl⟩
    · have heq : cs ++ ['\n'] = ['/', '/'] ++ (rest ++ '\n' :: after) := by simpa using hcs
      exact hfirst ⟨_, (eq_of_newline heq (by simp)).symm⟩
    · have heq : cs ++ ['\n'] = (front ++ ['\n', '/', '/']) ++ (rest ++ '\n' :: after) := by
        simpa using hcs
      exact h.noComment ⟨front, _, (eq_of_newline heq (by simp)).symm⟩
  · intro hreturn
    obtain ⟨rest, rfl⟩ := List.getLast?_eq_some_iff.mp hreturn
    cases after with
    | nil =>
      have heq : cs ++ ['\n'] = (before ++ rest ++ ['\r']) ++ ['\n'] := by simpa using hcs
      exact hlast (by rw [List.append_cancel_right heq]; simp)
    | cons c after =>
      have heq : cs ++ ['\n'] = (before ++ rest ++ ['\r', '\n']) ++ c :: after := by
        simpa using hcs
      exact h.noReturn ⟨before ++ rest, _, (eq_of_newline heq (by simp)).symm⟩

/-! ## Bytes -/

def encode (cs : List Char) : Bytes := cs.flatMap String.utf8EncodeChar

theorem encode_append (a b : List Char) : encode (a ++ b) = encode a ++ encode b :=
  List.flatMap_append

theorem encode_cons (c : Char) (cs : List Char) :
    encode (c :: cs) = String.utf8EncodeChar c ++ encode cs :=
  List.flatMap_cons

theorem encode_inj {a b : List Char} (h : encode a = encode b) : a = b := by
  have hbytes : bytesOf (.ofList a) = bytesOf (.ofList b) := by
    rw [bytesOf_eq, bytesOf_eq, String.toList_ofList, String.toList_ofList]
    exact h
  simpa using congrArg String.toList (bytesOf_inj hbytes)

theorem isText_encode (cs : List Char) : isText (encode cs) = true := by
  have hbytes : encode cs = (String.ofList cs).toUTF8.data.toList := by
    rw [← toList_eq_data, ← bytesOf, bytesOf_eq, String.toList_ofList, encode]
  rw [isText, hbytes, Array.toArray_toList, fromUTF8?_toUTF8]
  rfl

theorem notMem_encode {c : Char} {b : UInt8} (hc : c.toNat = b.toNat) (hb : b.toNat < 128)
    {cs : List Char} (h : c ∉ cs) : b ∉ encode cs := by
  intro hmem
  obtain ⟨d, hd, hbyte⟩ := List.mem_flatMap.mp hmem
  exact h (eq_of_ascii_mem hc hb hbyte ▸ hd)

theorem dropReturn_append {line : Bytes} (h : line ≠ []) (front : Bytes) :
    dropReturn (front ++ line) = front ++ dropReturn line := by
  induction front with
  | nil => rfl
  | cons b front ih =>
    obtain ⟨c, rest, hrest⟩ : ∃ c rest, front ++ line = c :: rest :=
      List.exists_cons_of_ne_nil (by simp [h])
    rw [List.cons_append, hrest, dropReturn, ← hrest, ih]
    · rfl
    · simp

theorem dropReturn_encode {r : List Char} (h : r.getLast? ≠ some '\r') :
    dropReturn (encode r) = encode r := by
  rcases List.eq_nil_or_concat r with rfl | ⟨front, c, rfl⟩
  · rfl
  rcases List.eq_nil_or_concat (String.utf8EncodeChar c) with hnil | ⟨bytes, b, hbytes⟩
  · exact absurd hnil String.utf8EncodeChar_ne_nil
  have hb : b ≠ 13 := by
    rintro rfl
    have hc : c = '\r' := eq_of_ascii_mem (b := 13) rfl (by decide) (by simp [hbytes])
    exact h (by simp [hc])
  rw [List.concat_eq_append, encode_append, show encode [c] = bytes ++ [b] by simp [encode, hbytes],
    ← List.append_assoc, dropReturn_append (by simp), dropReturn, if_neg hb]

theorem exists_encode_dropReturn (r : List Char) : ∃ q, dropReturn (encode r) = encode q := by
  by_cases h : r.getLast? = some '\r'
  · obtain ⟨q, rfl⟩ := List.getLast?_eq_some_iff.mp h
    have hreturn : encode ['\r'] = [13] := rfl
    refine ⟨q, ?_⟩
    rw [encode_append, hreturn, dropReturn_append (by simp), dropReturn, if_pos rfl,
      List.append_nil]
  · exact ⟨r, dropReturn_encode h⟩

theorem linesOf_row {line : Bytes} (h : 10 ∉ line) (acc rest : Bytes) :
    linesOf acc (line ++ 10 :: rest) = dropReturn (acc.reverse ++ line) :: linesOf [] rest := by
  induction line generalizing acc with
  | nil => simp [linesOf]
  | cons b line ih =>
    rw [List.mem_cons, not_or] at h
    rw [List.cons_append, linesOf, if_neg (Ne.symm h.1), ih h.2]
    simp

theorem linesOf_unrows {rs : List (List Char)} (h : ∀ r ∈ rs, '\n' ∉ r) :
    linesOf [] (encode (unrows rs)) = rs.map fun r => dropReturn (encode r) := by
  induction rs with
  | nil => rfl
  | cons r rs ih =>
    have hrow : encode (unrows (r :: rs)) = encode r ++ 10 :: encode (unrows rs) := by
      rw [unrows, List.flatMap_cons, ← unrows, encode_append, encode_append, List.append_assoc]
      rfl
    rw [hrow, linesOf_row (notMem_encode rfl (by decide) (h r List.mem_cons_self)),
      ih fun q hq => h q (List.mem_cons_of_mem _ hq)]
    rfl

/-! ## Equivalence -/

/-- A comment with its text left out, and any other line as it is. -/
def blank (line : Bytes) : Bytes := if isComment line then [47, 47, 32] else line

theorem sameLine_iff {a b : Bytes} : sameLine a b = true ↔ blank a = blank b := by
  simp only [sameLine, blank, Bool.or_eq_true, Bool.and_eq_true, decide_eq_true_eq]
  constructor
  · rintro (rfl | ⟨ha, hb⟩)
    · rfl
    · rw [if_pos ha, if_pos hb]
  · intro h
    split at h <;> split at h
    · exact .inr ⟨‹_›, ‹_›⟩
    · next hb => exact absurd (h ▸ rfl) hb
    · next ha _ => exact absurd (h ▸ rfl) ha
    · exact .inl h

/-- Where all lines are text, the comparison ends and tells whether the lines are the same up
to comments. -/
theorem compareLines_of_text {as bs : List Bytes} (ha : ∀ a ∈ as, isText a = true)
    (hb : ∀ b ∈ bs, isText b = true) :
    ∃ same, compareLines as bs = .ok same ∧ (same = true ↔ as.map blank = bs.map blank) := by
  induction as generalizing bs with
  | nil =>
    cases bs with
    | nil => exact ⟨true, rfl, by simp⟩
    | cons b bs => exact ⟨false, by simp [compareLines, hb b List.mem_cons_self], by simp⟩
  | cons a as ih =>
    cases bs with
    | nil => exact ⟨false, by simp [compareLines, ha a List.mem_cons_self], by simp⟩
    | cons b bs =>
      rw [compareLines, ha a List.mem_cons_self, hb b List.mem_cons_self, List.map_cons,
        List.map_cons, List.cons_eq_cons, ← sameLine_iff]
      cases hsame : sameLine a b with
      | true =>
        obtain ⟨same, heq, hiff⟩ := ih (fun c hc => ha c (List.mem_cons_of_mem _ hc))
          (fun c hc => hb c (List.mem_cons_of_mem _ hc))
        exact ⟨same, heq, by simpa using hiff⟩
      | false => exact ⟨false, rfl, by simp⟩

theorem prefix_of_isComment {r : List Char} (h : isComment (encode r) = true) :
    ['/', '/'] <+: r := by
  have hslash {c : Char} {rest bytes : Bytes}
      (hc : String.utf8EncodeChar c ++ rest = 47 :: bytes) : c = '/' ∧ rest = bytes := by
    cases henc : String.utf8EncodeChar c with
    | nil => exact absurd henc String.utf8EncodeChar_ne_nil
    | cons b bs =>
      rw [henc] at hc
      obtain ⟨rfl, htail⟩ := List.cons_eq_cons.mp hc
      obtain rfl : c = '/' := eq_of_ascii_mem (b := 47) rfl (by decide) (by simp [henc])
      obtain rfl : bs = [] := (List.cons_eq_cons.mp henc).2.symm
      exact ⟨rfl, htail⟩
  match hbytes : encode r with
  | [] => simp [hbytes, isComment] at h
  | [_] => simp [hbytes, isComment] at h
  | a :: b :: bytes =>
    obtain ⟨rfl, rfl⟩ : a = 47 ∧ b = 47 := by simpa [hbytes, isComment] using h
    match r with
    | [] => cases hbytes
    | [c] =>
      rw [encode_cons] at hbytes
      exact absurd (hslash hbytes).2 (by simp [encode])
    | c :: d :: r =>
      rw [encode_cons] at hbytes
      obtain ⟨rfl, htail⟩ := hslash hbytes
      rw [encode_cons] at htail
      obtain ⟨rfl, -⟩ := hslash htail
      exact ⟨r, rfl⟩

/-! ## Where a break stands -/

def Breaks (p : List Char) : Prop := '\n' ∈ p ∧ ∀ c ∈ p, c ∈ ['\r', '\n', '/']

theorem breaks_return : Breaks ['\r', '\n'] := by simp [Breaks]

theorem breaks_comment : Breaks ['\n', '/', '/'] := by simp [Breaks]

theorem Breaks.not_infix {p cs : List Char} (hp : Breaks p) (hcs : '\n' ∉ cs) : ¬p <:+: cs :=
  fun h => hcs (h.subset hp.1)

/-- A sign that is not in a pattern parts a text at every place of the pattern. -/
theorem infix_split {p a b : List Char} {c : Char} (hc : c ∉ p) (h : p <:+: a ++ c :: b) :
    p <:+: a ∨ p <:+: b := by
  have hfront {a : List Char} (h : p <+: a ++ c :: b) : p <+: a := by
    rcases List.prefix_or_prefix_of_prefix h (List.prefix_append a _) with ha | ⟨rest, rfl⟩
    · exact ha
    · cases rest with
      | nil => simp
      | cons d rest =>
        have hd := (List.prefix_append_right_inj a).mp h
        obtain ⟨rfl, -⟩ := List.cons_prefix_cons.mp hd
        exact absurd (by simp) hc
  induction a with
  | nil =>
    rcases List.infix_cons_iff.mp h with h | h
    · exact .inl (hfront (a := []) h).isInfix
    · exact .inr h
  | cons d a ih =>
    rcases List.infix_cons_iff.mp h with h | h
    · exact .inl (hfront (a := d :: a) h).isInfix
    · exact (ih h).imp_left fun h => h.trans (List.infix_cons (List.infix_refl a))

theorem infix_doubleQuotes {p s : List Char} (hp : '"' ∉ p) (h : p <:+: doubleQuotes s) :
    p <:+: s := by
  have hfront {p s : List Char} (hp : '"' ∉ p) (h : p <+: doubleQuotes s) : p <+: s := by
    induction s generalizing p with
    | nil => exact h
    | cons c s ih =>
      cases p with
      | nil => exact List.nil_prefix
      | cons d p =>
        rw [List.mem_cons, not_or] at hp
        rw [doubleQuotes] at h
        split at h
        · exact absurd (List.cons_prefix_cons.mp h).1.symm hp.1
        · obtain ⟨rfl, htail⟩ := List.cons_prefix_cons.mp h
          exact List.cons_prefix_cons.mpr ⟨rfl, ih hp.2 htail⟩
  induction s with
  | nil => exact h
  | cons c s ih =>
    have hskip : p <:+: doubleQuotes s → p <:+: c :: s := fun h => (ih h).trans
      (List.infix_cons (List.infix_refl s))
    rw [doubleQuotes] at h
    split at h
    · have hnil : p <:+: [] → p <:+: c :: s := fun h => (List.infix_nil.mp h) ▸ List.nil_infix
      rcases infix_split (a := []) hp h with h | h
      · exact hnil h
      rcases infix_split (a := []) hp h with h | h
      · exact hnil h
      · exact hskip h
    · next hc =>
      rcases List.infix_cons_iff.mp h with hfirst | h
      · exact (hfront hp (s := c :: s) (by rwa [doubleQuotes, if_neg hc])).isInfix
      · exact hskip h

theorem infix_quotes {p s : List Char} (hp : Breaks p) (h : p <:+: quotes s) : p <:+: s := by
  have hquote : '"' ∉ p := fun hmem => absurd (hp.2 _ hmem) (by decide)
  rcases infix_split (a := []) hquote h with h | h
  · exact absurd h (hp.not_infix (by simp))
  rcases infix_split hquote h with h | h
  · exact infix_doubleQuotes hquote h
  · exact absurd h (hp.not_infix (by simp))

def Arg.text? : Arg → Option String
  | .text s => some s
  | _ => none

/-- The texts of a line, which alone can go over several rows. -/
def Line.texts : Line → List String
  | .define _ key => [key]
  | .fact f => f.args.filterMap Arg.text?
  | _ => []

def Command.texts : Command → List String
  | .labelFor key => [key]
  | .fact f => f.args.filterMap Arg.text?
  | _ => []

theorem Arg.infix_render {p : List Char} (hp : Breaks p) {a : Arg} (ha : a.Plain)
    (h : p <:+: a.render.toList) : ∃ s, a.text? = some s ∧ p <:+: s.toList := by
  cases a with
  | label l =>
    cases l with
    | number n =>
      have hrender : (Arg.label (.number n)).render.toList = '#' :: (toString n).toList := by
        simp [render, Label.render]
      rw [hrender] at h
      exact absurd h (hp.not_infix (by simpa using notMem_nat (by decide) n))
    | named name => cases ha
    | star => exact absurd h (hp.not_infix (by decide))
  | text s =>
    have hrender : (Arg.text s).render.toList = quotes s.toList := by
      simp [render, escape, quotes]
    exact ⟨s, rfl, infix_quotes hp (hrender ▸ h)⟩
  | int n => exact absurd h (hp.not_infix (notMem_int (by decide) (by decide) n))
  | float x => cases ha

theorem infix_intercalate {p : List Char} (hp : Breaks p) {parts : List (List Char)}
    (h : p <:+: [','].intercalate parts) : ∃ part ∈ parts, p <:+: part := by
  have hcomma : ',' ∉ p := fun hmem => absurd (hp.2 _ hmem) (by decide)
  induction parts with
  | nil => exact absurd h (hp.not_infix (by simp))
  | cons part parts ih =>
    cases parts with
    | nil => exact ⟨part, List.mem_cons_self, by rwa [List.intercalate_singleton] at h⟩
    | cons next parts =>
      rw [List.intercalate_cons_cons, List.append_assoc, List.singleton_append] at h
      rcases infix_split hcomma h with h | h
      · exact ⟨part, List.mem_cons_self, h⟩
      · obtain ⟨q, hq, h⟩ := ih h
        exact ⟨q, List.mem_cons_of_mem _ hq, h⟩

theorem Line.infix_render {p : List Char} (hp : Breaks p) {l : Line} (hl : l.Plain)
    (h : p <:+: l.render.toList) : ∃ s ∈ l.texts, p <:+: s.toList := by
  have hsign {c : Char} (hc : c ∉ ['\r', '\n', '/']) : c ∉ p := fun hmem => hc (hp.2 _ hmem)
  cases l with
  | comment text =>
    rw [toList_comment] at h
    have htext : '\n' ∉ text.toList := hl
    exact absurd h (hp.not_infix (by simpa using htext))
  | define label key =>
    obtain ⟨⟨n, rfl⟩, hkey⟩ := hl
    rw [toList_define hkey] at h
    rcases infix_split (a := []) (hsign (by decide)) h with h | h
    · exact absurd h (hp.not_infix (by simp))
    rcases infix_split (hsign (by decide)) h with h | h
    · exact absurd h (hp.not_infix (notMem_nat (by decide) n))
    rcases infix_split (a := []) (hsign (by decide)) h with h | h
    · exact absurd h (hp.not_infix (by simp))
    · exact ⟨key, List.mem_singleton_self key, infix_quotes hp h⟩
  | fresh label =>
    obtain ⟨n, rfl⟩ := hl
    rw [toList_fresh] at h
    exact absurd h (hp.not_infix (by simpa using notMem_nat (by decide) n))
  | fact f =>
    rw [show (fact f).render = f.render from rfl, Fact.toList_render] at h
    rcases infix_split (hsign (by decide)) h with h | h
    · exact absurd h (hp.not_infix (notMem_relation hl.1 (by decide) (by decide)))
    rcases infix_split (hsign (by decide)) h with h | h
    · obtain ⟨part, hpart, h⟩ := infix_intercalate hp h
      obtain ⟨a, ha, rfl⟩ := List.mem_map.mp hpart
      obtain ⟨s, hs, h⟩ := Arg.infix_render hp (hl.2 a ha) h
      exact ⟨s, List.mem_filterMap.mpr ⟨a, ha, hs⟩, h⟩
    · exact absurd h (hp.not_infix (by simp))

/-! ## Comments left out -/

/-- A line without the text of a comment. -/
def Line.erased : Line → Line
  | .comment _ => .comment ""
  | l => l

theorem Line.plain_erased {l : Line} (hl : l.Plain) : l.erased.Plain := by
  cases l with
  | comment text => simp [erased, Plain]
  | _ => exact hl

theorem Line.steady_render {l : Line} (hl : l.Plain) (htexts : ∀ s ∈ l.texts, Steady s.toList) :
    Steady l.render.toList where
  noReturn h := by
    obtain ⟨s, hs, hinfix⟩ := infix_render breaks_return hl h
    exact (htexts s hs).noReturn hinfix
  noComment h := by
    obtain ⟨s, hs, hinfix⟩ := infix_render breaks_comment hl h
    exact (htexts s hs).noComment hinfix

theorem rows_of_notMem {cs : List Char} (h : '\n' ∉ cs) : rows cs = [cs] := by
  have hwhole : Whole (fun _ c => c = '\n') cs := by
    intro before c after hcs
    simp only [decide_eq_false_iff_not]
    rintro rfl
    exact h (by simp [hcs])
  have hpieces := pieces_whole hwhole []
  rwa [List.append_nil, pieces] at hpieces

theorem Line.seen_rows {l : Line} (hl : l.Plain) (htexts : ∀ s ∈ l.texts, Steady s.toList) :
    (rows l.render.toList).map (fun r => blank (dropReturn (encode r))) =
      (rows l.erased.render.toList).map encode := by
  have hsteady := l.steady_render hl htexts
  have hkept (hfirst : ¬['/', '/'] <+: l.render.toList)
      (hlast : l.render.toList.getLast? ≠ some '\r') :
      (rows l.render.toList).map (fun r => blank (dropReturn (encode r))) =
        (rows l.render.toList).map encode := by
    apply List.map_congr_left
    intro r hr
    obtain ⟨hcomment, hreturn⟩ := hsteady.row hfirst hlast hr
    rw [dropReturn_encode hreturn, blank, if_neg fun h => hcomment (prefix_of_isComment h)]
  cases l with
  | comment text =>
    have htext : '\n' ∉ text.toList := hl
    rw [erased, toList_comment, toList_comment, rows_of_notMem (by simpa using htext),
      rows_of_notMem (by decide), List.map_singleton, List.map_singleton]
    have hcut : dropReturn (encode ('/' :: '/' :: ' ' :: text.toList)) =
        47 :: 47 :: dropReturn (32 :: encode text.toList) := rfl
    have hcomment : isComment (47 :: 47 :: dropReturn (32 :: encode text.toList)) = true := rfl
    rw [hcut, blank, if_pos hcomment]
    rfl
  | define label key =>
    obtain ⟨⟨n, rfl⟩, hkey⟩ := hl
    refine hkept (by rw [toList_define hkey]; simp) ?_
    rw [render, String.toList_append]
    simp [List.getLast?_cons]
  | fresh label =>
    obtain ⟨n, rfl⟩ := hl
    refine hkept (by rw [toList_fresh]; simp) ?_
    rw [render, String.toList_append]
    simp
  | fact f =>
    refine hkept ?_ ?_
    · rintro ⟨rest, hrest⟩
      exact absurd (Fact.head?_render hl (c := '/') (by rw [← render, ← hrest]; rfl)) (by decide)
    · rw [show (fact f).render = f.render from rfl, Fact.render, String.toList_append]
      simp [List.getLast?_cons]

theorem bytesOf_lines (ls : List Line) :
    bytesOf (String.join (ls.map fun l => l.render ++ "\n")) =
      encode (unrows (ls.flatMap fun l => rows l.render.toList)) := by
  rw [bytesOf_eq, encode]
  congr 1
  induction ls with
  | nil => rfl
  | cons l ls ih =>
    rw [List.flatMap_cons, unrows_append, ← ih, unrows_rows, List.map_cons, String.join_cons]
    simp

/-- The lines of a trap as a comparison sees them: they are text, and up to comments they are
the rows of the trap without the texts of its comments. -/
theorem seen_lines {ls : List Line} (hls : ∀ l ∈ ls, l.Plain)
    (htexts : ∀ l ∈ ls, ∀ s ∈ l.texts, Steady s.toList) :
    (∀ line ∈ linesOf [] (bytesOf (String.join (ls.map fun l => l.render ++ "\n"))),
        isText line = true) ∧
      (linesOf [] (bytesOf (String.join (ls.map fun l => l.render ++ "\n")))).map blank =
        (((ls.map Line.erased).flatMap fun l => rows l.render.toList)).map encode := by
  have hnewline : ∀ r ∈ ls.flatMap fun l => rows l.render.toList, '\n' ∉ r := by
    intro r hr
    obtain ⟨l, -, hr⟩ := List.mem_flatMap.mp hr
    exact newline_notMem_rows hr
  rw [bytesOf_lines, linesOf_unrows hnewline]
  constructor
  · intro line hline
    obtain ⟨r, -, rfl⟩ := List.mem_map.mp hline
    obtain ⟨q, hq⟩ := exists_encode_dropReturn r
    rw [hq, isText_encode]
  · clear hnewline
    induction ls with
    | nil => rfl
    | cons l ls ih =>
      have hfirst := Line.seen_rows (hls l List.mem_cons_self) (htexts l List.mem_cons_self)
      have hrest := ih (fun m hm => hls m (List.mem_cons_of_mem _ hm))
        fun m hm => htexts m (List.mem_cons_of_mem _ hm)
      rw [List.map_map] at hrest ⊢
      rw [List.flatMap_cons, List.map_append, hrest, List.map_cons, List.flatMap_cons,
        List.map_append]
      exact congrArg (· ++ _) hfirst

/-- Traps without comments have the same rows only if they say the same. -/
theorem eq_of_rows {ls ms : List Line} (hls : ∀ l ∈ ls, l.Plain) (hms : ∀ l ∈ ms, l.Plain)
    (h : (ls.flatMap fun l => rows l.render.toList) = ms.flatMap fun l => rows l.render.toList) :
    ls = ms := by
  have htext : String.join (ls.map fun l => l.render ++ "\n") =
      String.join (ms.map fun l => l.render ++ "\n") :=
    bytesOf_inj (by rw [bytesOf_lines, bytesOf_lines, h])
  have hread := readLines_text hls
  rw [htext, readLines_text hms] at hread
  exact (Option.some.inj hread).symm

theorem Command.texts_lines {t : LabelTable} {c : Command} :
    ∀ l ∈ c.lines t, l.texts ⊆ c.texts := by
  intro l hl
  cases c with
  | labelFor key =>
    rw [lines] at hl
    split at hl
    · cases hl
    · cases List.mem_singleton.mp hl
      exact List.Subset.refl _
  | _ =>
    cases List.mem_singleton.mp hl
    exact List.Subset.refl _

/-- Traps in whose texts no row looks like a comment or ends in a carriage return are
equivalent just when they say the same up to the texts of comments. -/
theorem equivalent_iff_erased {sink : Sink} (hs : sink.NeverRefuses) (ht : sink.taken = [])
    {cs ds : List Command} (hcs : ∀ c ∈ cs, c.Plain) (hds : ∀ d ∈ ds, d.Plain)
    (hsteady : ∀ c ∈ cs ++ ds, ∀ s ∈ c.texts, Steady s.toList) :
    ∃ same, equivalent (bytesOf (written sink cs).text) (bytesOf (written sink ds).text) =
        .ok same ∧
      (same = true ↔ (said .empty cs).map Line.erased = (said .empty ds).map Line.erased) := by
  have htexts {es : List Command} (hes : es ⊆ cs ++ ds) :
      ∀ l ∈ said .empty es, ∀ s ∈ l.texts, Steady s.toList := by
    intro l hl s hs
    obtain ⟨c, hc, t, hlines⟩ := mem_said hl
    exact hsteady c (hes hc) s (Command.texts_lines l hlines hs)
  have herased {es : List Command} (hes : ∀ e ∈ es, e.Plain) :
      ∀ l ∈ (said .empty es).map Line.erased, l.Plain := by
    intro l hl
    obtain ⟨m, hm, rfl⟩ := List.mem_map.mp hl
    exact Line.plain_erased (plain_said hes m hm)
  obtain ⟨htextC, hseenC⟩ := seen_lines (plain_said hcs) (htexts (List.subset_append_left _ _))
  obtain ⟨htextD, hseenD⟩ := seen_lines (plain_said hds) (htexts (List.subset_append_right _ _))
  obtain ⟨same, hsame, hiff⟩ := compareLines_of_text htextC htextD
  rw [hseenC, hseenD] at hiff
  refine ⟨same, ?_, hiff.trans ⟨fun h => ?_, fun h => by rw [h]⟩⟩
  · rw [text_written hs ht, text_written hs ht, equivalent, hsame]
  · exact eq_of_rows (herased hcs) (herased hds)
      ((List.map_inj_right fun _ _ => encode_inj).mp h)

/-- A text over three rows, of which one holds slashes and one starts with a single slash. -/
def remarked (remark : String) : List Command :=
  [.comment remark, .labelFor "file;a\nb",
    .fact ⟨"diagnostics", [.label (.number 100), .text "a // \"b\"\n/ c\n\r"]⟩]

theorem equivalent_iff_erased_remarked :
    Sink.unbounded.NeverRefuses ∧
      (∀ c ∈ remarked "one" ++ remarked "two\r", c.Plain ∧ ∀ s ∈ c.texts, Steady s.toList) ∧
      equivalent (bytesOf (written .unbounded (remarked "one")).text)
        (bytesOf (written .unbounded (remarked "two\r")).text) = .ok true := by
  have hs : Sink.unbounded.NeverRefuses := fun _ _ => rfl
  have hplain (remark : String) (h : '\n' ∉ remark.toList) : ∀ c ∈ remarked remark, c.Plain := by
    simp [remarked, Command.Plain, Fact.Plain, Arg.Plain, relations, h]
  have hkey : Steady "file;a\nb".toList := ⟨by decide +kernel, by decide +kernel⟩
  have htext : Steady "a // \"b\"\n/ c\n\r".toList := ⟨by decide +kernel, by decide +kernel⟩
  have hsteady : ∀ c ∈ remarked "one" ++ remarked "two\r", ∀ s ∈ c.texts, Steady s.toList := by
    have hall : ∀ s ∈ (remarked "one" ++ remarked "two\r").flatMap Command.texts,
        s = "file;a\nb" ∨ s = "a // \"b\"\n/ c\n\r" := by decide
    intro c hc s hmem
    rcases hall s (List.mem_flatMap.mpr ⟨c, hc, hmem⟩) with rfl | rfl
    · exact hkey
    · exact htext
  obtain ⟨same, hsame, hiff⟩ := equivalent_iff_erased hs rfl (hplain "one" (by decide))
    (hplain "two\r" (by decide)) hsteady
  refine ⟨hs, fun c hc => ⟨?_, hsteady c hc⟩, by rw [hsame, hiff.mpr rfl]⟩
  rcases List.mem_append.mp hc with hc | hc
  · exact hplain "one" (by decide) c hc
  · exact hplain "two\r" (by decide) c hc

end IrFacts.Trap
