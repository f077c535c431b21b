import IrFacts.Json.Parse
import IrFacts.Json.Value
import Mathlib.Data.Nat.Init
import Std.Data.String.ToNat

/-!
# Written documents are read back

A document without binary fractions, and with integers of at most 64 bits, is read
as the tree of its own values: every bracket is closed, every string is the one
that was escaped, and every number the one that was written. The reader has two
units of fuel for each character, which is enough for both of its turns.
-/

set_option autoImplicit false

namespace IrFacts.Json

/-! ## The tree of a document -/

namespace Value

mutual

/-- The tree that is read of a written document. -/
def node : Value → Node
  | .null => .null
  | .bool value => .bool value
  | .integer n => .number (.ok (if 0 ≤ n then .natural n.toNat else .negative n)) none
  | .real x => .number (.ok (.real x)) none
  | .real32 x => .number (.ok (.real x.toFloat)) none
  | .string s => .string (.ok s) none
  | .array items => .array (nodes items) .closed
  | .object members => .object (memberNodes members) .closed

def nodes : List Value → List Node
  | [] => []
  | item :: rest => item.node :: nodes rest

def memberNodes : List (String × Value) → List (Key × Node)
  | [] => []
  | (name, value) :: rest => (⟨.ok name, none⟩, value.node) :: memberNodes rest

end

mutual

def Fits : Value → Prop
  | .null => True
  | .bool _ => True
  | .integer n => -0x8000000000000000 ≤ n ∧ n < 0x10000000000000000
  | .real _ => False
  | .real32 _ => False
  | .string _ => True
  | .array items => FitsAll items
  | .object members => FitsMembers members

def FitsAll : List Value → Prop
  | [] => True
  | item :: rest => item.Fits ∧ FitsAll rest

def FitsMembers : List (String × Value) → Prop
  | [] => True
  | (_, value) :: rest => value.Fits ∧ FitsMembers rest

end

end Value

/-! ## Strings -/

theorem hexNumber?_hexDigit : ∀ n < 0x20,
    hexNumber? '0' '0' (hexDigit (n / 16)) (hexDigit (n % 16)) = some n := by decide

/-- However a character is escaped, it is read as itself. -/
theorem lexString_escapeChar (c : Char) (before : List Char) (rest : List Char) :
    lexString none (.ok before) (escapeChar c ++ rest) =
      lexString none (.ok (c :: before)) rest := by
  unfold escapeChar
  iterate 7
    split
    · next h =>
      subst h
      simp [lexString, simpleEscape?, Partial.push, Except.map]
  next hquote hbackslash _ _ _ _ _ =>
  split
  · next hsmall =>
    have hhigh : isHighSurrogate c.toNat = false := by
      simp [isHighSurrogate]
      omega
    have hlow : isLowSurrogate c.toNat = false := by
      simp [isLowSurrogate]
      omega
    simp [lexString, hexNumber?_hexDigit c.toNat hsmall, hhigh, hlow, Partial.push, Except.map]
  · next hlarge => simp [lexString, hquote, hbackslash, hlarge, Partial.push, Except.map]

theorem lexString_escaped (cs before rest : List Char) :
    lexString none (.ok before) (cs.flatMap escapeChar ++ '"' :: rest) =
      { value := .ok (String.ofList (before.reverse ++ cs)), rest := .ok rest } := by
  induction cs generalizing before with
  | nil => simp [lexString, Except.map]
  | cons c cs ih =>
    rw [List.flatMap_cons, List.append_assoc, lexString_escapeChar, ih]
    simp

theorem toList_quoted (s : String) :
    (quoted s).toList = '"' :: (s.toList.flatMap escapeChar ++ ['"']) := by
  simp [quoted]

theorem readKey_quoted (s : String) (rest : List Char) :
    readKey (s.toList.flatMap escapeChar ++ '"' :: rest) = (⟨.ok s, none⟩, some rest) := by
  simp [readKey, lexString_escaped]

/-! ## Numbers -/

def Follows (rest : List Char) : Prop := ∀ c ∈ rest.head?, c = ',' ∨ c = ']' ∨ c = '\x7d'

theorem toDigits_cons (n : Nat) :
    ∃ d ds, Nat.toDigits 10 n = d :: ds ∧ (d = '0' → ds = []) ∧ (0 < n → d ≠ '0') := by
  induction n using Nat.strongRecOn with
  | ind n ih =>
    rw [Nat.toDigits_eq_if (by decide)]
    split
    · next hsmall =>
      have hdigit : ∀ m < 10, 0 < m → m.digitChar ≠ '0' := by decide
      exact ⟨n.digitChar, [], rfl, fun _ => rfl, hdigit n hsmall⟩
    · obtain ⟨d, ds, hdigits, -, hd⟩ := ih (n / 10) (by omega)
      have hne : d ≠ '0' := hd (by omega)
      exact ⟨d, _, by rw [hdigits]; rfl, fun h => absurd h hne, fun _ => hne⟩

theorem isDigit_toDigits {n : Nat} : ∀ c ∈ Nat.toDigits 10 n, c.isDigit = true :=
  fun _ h => Nat.isDigit_of_mem_toDigits (by decide) (by decide) h

theorem naturalOfDigits_toDigits (n : Nat) : Text.naturalOfDigits (Nat.toDigits 10 n) = n :=
  Nat.ofDigitChars_toDigits (by decide) (by decide)

theorem span_toDigits (n : Nat) {rest : List Char} (h : Follows rest) :
    (Nat.toDigits 10 n ++ rest).takeWhile Char.isDigit = Nat.toDigits 10 n ∧
      (Nat.toDigits 10 n ++ rest).dropWhile Char.isDigit = rest := by
  rw [List.takeWhile_append_of_pos isDigit_toDigits, List.dropWhile_append_of_pos isDigit_toDigits]
  cases rest with
  | nil => simp
  | cons c rest =>
    have hc : c.isDigit = false := by rcases h c rfl with rfl | rfl | rfl <;> rfl
    simp [hc]

theorem lexFraction_follows (t : NumberText) {rest : List Char} (h : Follows rest) :
    lexFraction t rest = .ok (t, rest) := by
  cases rest with
  | nil => rfl
  | cons c rest => rcases h c rfl with rfl | rfl | rfl <;> rfl

theorem lexNumber_toDigits (negative : Bool) (n : Nat) {rest : List Char} (h : Follows rest) :
    lexNumber ((if negative then ['-'] else []) ++ (Nat.toDigits 10 n ++ rest)) =
      .ok (⟨negative, Nat.toDigits 10 n, none, none⟩, rest) := by
  obtain ⟨d, ds, hdigits, hzero, -⟩ := toDigits_cons n
  obtain ⟨htake, hdrop⟩ := span_toDigits n h
  have hd : d.isDigit = true := isDigit_toDigits (n := n) d (by simp [hdigits])
  rw [hdigits] at htake hdrop ⊢
  have hminus : ∀ r, d :: ds ++ rest ≠ '-' :: r := by
    rintro r heq
    obtain rfl := (List.cons.inj heq).1
    cases hd
  generalize d :: ds ++ rest = body at htake hdrop hminus ⊢
  have hbody : lexNumber ((if negative then ['-'] else []) ++ body) =
      lexFraction ⟨negative, d :: ds, none, none⟩ rest := by
    cases negative <;> cases ds <;> simp_all [lexNumber]
  rw [hbody, lexFraction_follows _ h]

theorem value_toDigits_natural {n : Nat} (h : n < 0x10000000000000000) :
    NumberText.value ⟨false, Nat.toDigits 10 n, none, none⟩ = .ok (.natural n) := by
  have hsize : n < UInt64.size := h
  simp [NumberText.value, naturalOfDigits_toDigits, hsize]

theorem value_toDigits_negative {n : Nat} (hpos : 0 < n) (h : n ≤ 0x8000000000000000) :
    NumberText.value ⟨true, Nat.toDigits 10 n, none, none⟩ = .ok (.negative (-n)) := by
  have hsize : n < UInt64.size := Nat.lt_of_le_of_lt h (by decide)
  simp [NumberText.value, naturalOfDigits_toDigits, hsize, hpos, h]

/-! ## Values -/

/-- A value begins with a sign of its own, and not with one that closes a bracket. -/
def Begins (text : List Char) : Prop :=
  ∃ c cs, text = c :: cs ∧ isSpace c = false ∧ c ≠ ']' ∧ c ≠ '\x7d'

theorem Begins.dropSpace {text : List Char} (h : Begins text) : dropSpace text = text := by
  obtain ⟨c, cs, rfl, hspace, -⟩ := h
  simp [Json.dropSpace, hspace]

theorem Begins.append {text : List Char} (h : Begins text) (rest : List Char) :
    Begins (text ++ rest) := by
  obtain ⟨c, cs, rfl, hc⟩ := h
  exact ⟨c, cs ++ rest, rfl, hc⟩

theorem ne_of_isDigit {c other : Char} (h : c.isDigit = true) (hother : other.isDigit = false) :
    c ≠ other := by
  rintro rfl
  cases h.symm.trans hother

theorem readValue_number {c : Char} {cs rest : List Char} {t : NumberText}
    (hc : c = '-' ∨ c.isDigit = true) (h : lexNumber (c :: cs) = .ok (t, rest)) (fuel : Nat) :
    readValue (fuel + 1) (c :: cs) = (.number t.value none, some rest) := by
  have hother : isSpace c = false ∧ c ≠ 'n' ∧ c ≠ 't' ∧ c ≠ 'f' := by
    rcases hc with rfl | hdigit
    · decide
    · exact ⟨by simp [isSpace, ne_of_isDigit hdigit], ne_of_isDigit hdigit rfl,
        ne_of_isDigit hdigit rfl, ne_of_isDigit hdigit rfl⟩
  obtain ⟨hspace, hn, ht, hf⟩ := hother
  simp [readValue, dropSpace, hspace, hn, ht, hf, hc, readNumber, h]

namespace Value

theorem readValue_integer {n : Int} (h : (integer n).Fits) {rest : List Char}
    (hrest : Follows rest) (fuel : Nat) :
    readValue (fuel + 1) ((toString n).toList ++ rest) = ((integer n).node, some rest) := by
  obtain ⟨hlow, hhigh⟩ := h
  cases n with
  | ofNat n =>
    have hlex : lexNumber (Nat.toDigits 10 n ++ rest) = _ := lexNumber_toDigits false n hrest
    have hvalue := value_toDigits_natural (n := n) (Int.ofNat_lt.mp hhigh)
    obtain ⟨d, ds, hdigits, -⟩ := toDigits_cons n
    have hd : d.isDigit = true := isDigit_toDigits (n := n) d (by simp [hdigits])
    have htext : (toString (Int.ofNat n)).toList = d :: ds := by
      rw [← hdigits, ← Nat.toList_repr, ← Nat.toString_eq_repr]
      rfl
    rw [hdigits, List.cons_append] at hlex
    rw [hdigits] at hvalue
    rw [htext, List.cons_append, readValue_number (.inr hd) hlex, hvalue]
    rfl
  | negSucc n =>
    have hlex : lexNumber ('-' :: (Nat.toDigits 10 (n + 1) ++ rest)) = _ :=
      lexNumber_toDigits true (n + 1) hrest
    have hvalue := value_toDigits_negative (n := n + 1) (by omega) (by omega)
    have htext : (toString (Int.negSucc n)).toList = '-' :: Nat.toDigits 10 (n + 1) := by
      rw [← Nat.toList_repr, ← Nat.toString_eq_repr]
      exact String.toList_append
    rw [htext, List.cons_append, readValue_number (.inl rfl) hlex, hvalue]
    rfl

theorem readValue_string (s : String) (rest : List Char) (fuel : Nat) :
    readValue (fuel + 1) ((quoted s).toList ++ rest) = ((string s).node, some rest) := by
  simp [toList_quoted, readValue, dropSpace, isSpace, readString, readKey_quoted, node]

theorem begins_toDigits (n : Nat) : Begins (toString n).toList := by
  obtain ⟨d, ds, hdigits, -⟩ := toDigits_cons n
  have hd : d.isDigit = true := isDigit_toDigits (n := n) d (by simp [hdigits])
  rw [Nat.toString_eq_repr, Nat.toList_repr, hdigits]
  exact ⟨d, ds, rfl, by simp [isSpace, ne_of_isDigit hd], ne_of_isDigit hd rfl,
    ne_of_isDigit hd rfl⟩

theorem begins_render : ∀ {v : Value}, v.Fits → Begins v.render.toList
  | .null, _ => ⟨_, _, rfl, rfl, by decide, by decide⟩
  | .bool true, _ => ⟨_, _, rfl, rfl, by decide, by decide⟩
  | .bool false, _ => ⟨_, _, rfl, rfl, by decide, by decide⟩
  | .integer n, _ => by
    cases n with
    | ofNat n => exact begins_toDigits n
    | negSucc n =>
      refine ⟨'-', (toString (n + 1)).toList, ?_, rfl, by decide, by decide⟩
      exact String.toList_append
  | .string s, _ => ⟨'"', _, toList_quoted s, rfl, by decide, by decide⟩
  | .array [], _ => ⟨_, _, rfl, rfl, by decide, by decide⟩
  | .array (item :: rest), _ => by
    refine ⟨'[', item.render.toList ++ (renderItems rest).toList, ?_, rfl, by decide, by decide⟩
    simp [render]
  | .object [], _ => ⟨_, _, rfl, rfl, by decide, by decide⟩
  | .object ((name, value) :: rest), _ => by
    refine ⟨'\x7b', (quoted name).toList ++ ':' :: (value.render.toList ++
      (renderMembers rest).toList), ?_, rfl, by decide, by decide⟩
    simp [render]

/-- With two units of fuel for each character, the text of the value is read as its tree. -/
def Reads (v : Value) : Prop :=
  ∀ (fuel : Nat) (rest : List Char), Follows rest → 2 * v.render.toList.length ≤ fuel →
    readValue fuel (v.render.toList ++ rest) = (v.node, some rest)

theorem follows_renderItems (items : List Value) (rest : List Char) :
    Follows ((renderItems items).toList ++ rest) := by
  cases items <;> simp [renderItems, Follows]

theorem follows_renderMembers (members : List (String × Value)) (rest : List Char) :
    Follows ((renderMembers members).toList ++ rest) := by
  cases members <;> simp [renderMembers, Follows]

theorem readItems_last {fuel : Nat} {text rest : List Char} {item : Node}
    (h : readValue fuel text = (item, some (']' :: rest))) :
    readItems (fuel + 1) text = ([item], .closed, some rest) := by
  simp [readItems, h, dropSpace, isSpace]

theorem readItems_more {fuel : Nat} {text start : List Char} {item : Node}
    (h : readValue fuel text = (item, some (',' :: start))) (hstart : Begins start) :
    readItems (fuel + 1) text = (item :: (readItems fuel start).1, (readItems fuel start).2) := by
  have hdrop := hstart.dropSpace
  obtain ⟨c, cs, rfl, hspace, hc, -⟩ := hstart
  have hcomma : dropSpace (',' :: c :: cs) = ',' :: c :: cs := rfl
  simp [readItems, h, hcomma, hdrop, hc]

theorem readItems_render {first : Value} {items : List Value}
    (h : ∀ v ∈ first :: items, v.Reads ∧ v.Fits) (fuel : Nat) (rest : List Char)
    (hfuel : 2 * (first.render.toList.length + (renderItems items).toList.length) ≤ fuel) :
    readItems fuel (first.render.toList ++ ((renderItems items).toList ++ rest)) =
      (nodes (first :: items), .closed, some rest) := by
  induction items generalizing first fuel with
  | nil =>
    have hlength : (renderItems []).toList.length = 1 := rfl
    obtain ⟨fuel, rfl⟩ : ∃ n, fuel = n + 1 := Nat.exists_eq_add_one.mpr (by omega)
    have hfirst := (h first List.mem_cons_self).1 fuel _ (follows_renderItems [] rest) (by omega)
    exact readItems_last hfirst
  | cons second items ih =>
    obtain ⟨hreads, hitems⟩ := List.forall_mem_cons.mp h
    have hlength : (renderItems (second :: items)).toList.length =
        second.render.toList.length + (renderItems items).toList.length + 1 := by
      simp [renderItems]
    obtain ⟨fuel, rfl⟩ : ∃ n, fuel = n + 1 := Nat.exists_eq_add_one.mpr (by omega)
    have hfirst := hreads.1 fuel _ (follows_renderItems (second :: items) rest) (by omega)
    have htext : (renderItems (second :: items)).toList ++ rest =
        ',' :: (second.render.toList ++ ((renderItems items).toList ++ rest)) := by
      simp [renderItems]
    rw [htext] at hfirst ⊢
    have hbegins := (begins_render (hitems second List.mem_cons_self).2).append
      ((renderItems items).toList ++ rest)
    rw [readItems_more hfirst hbegins, ih hitems _ (by omega)]
    rfl

theorem readMembers_last {fuel : Nat} (name : String) {text rest : List Char} {value : Node}
    (h : readValue fuel text = (value, some ('\x7d' :: rest))) :
    readMembers (fuel + 1) ((quoted name).toList ++ ':' :: text) =
      ([(⟨.ok name, none⟩, value)], .closed, some rest) := by
  simp [toList_quoted, readMembers, readKey_quoted, h, dropSpace, isSpace]

theorem readMembers_more {fuel : Nat} (name : String) {text start : List Char} {value : Node}
    (h : readValue fuel text = (value, some (',' :: start))) (hstart : Begins start) :
    readMembers (fuel + 1) ((quoted name).toList ++ ':' :: text) =
      ((⟨.ok name, none⟩, value) :: (readMembers fuel start).1, (readMembers fuel start).2) := by
  have hdrop := hstart.dropSpace
  obtain ⟨c, cs, rfl, hspace, -, hc⟩ := hstart
  have hcolon : dropSpace (':' :: text) = ':' :: text := rfl
  have hcomma : dropSpace (',' :: c :: cs) = ',' :: c :: cs := rfl
  simp [toList_quoted, readMembers, readKey_quoted, hcolon, h, hcomma, hdrop, hc]

theorem begins_quoted (name : String) : Begins (quoted name).toList :=
  ⟨'"', _, toList_quoted name, rfl, by decide, by decide⟩

theorem readMembers_render {name : String} {first : Value} {members : List (String × Value)}
    (h : ∀ m ∈ (name, first) :: members, m.2.Reads) (fuel : Nat) (rest : List Char)
    (hfuel : 2 * ((quoted name).toList.length + 1 + first.render.toList.length +
      (renderMembers members).toList.length) ≤ fuel) :
    readMembers fuel ((quoted name).toList ++ ':' :: (first.render.toList ++
        ((renderMembers members).toList ++ rest))) =
      (memberNodes ((name, first) :: members), .closed, some rest) := by
  induction members generalizing name first fuel with
  | nil =>
    obtain ⟨fuel, rfl⟩ : ∃ n, fuel = n + 1 := Nat.exists_eq_add_one.mpr (by omega)
    have hfirst := h _ List.mem_cons_self fuel _ (follows_renderMembers [] rest) (by
      simp only
      omega)
    exact readMembers_last name hfirst
  | cons second members ih =>
    obtain ⟨other, second⟩ := second
    obtain ⟨hreads, hmembers⟩ := List.forall_mem_cons.mp h
    have hlength : (renderMembers ((other, second) :: members)).toList.length =
        (quoted other).toList.length + 1 + second.render.toList.length +
          (renderMembers members).toList.length + 1 := by
      simp [renderMembers]
      omega
    obtain ⟨fuel, rfl⟩ : ∃ n, fuel = n + 1 := Nat.exists_eq_add_one.mpr (by omega)
    have hfirst := hreads fuel _ (follows_renderMembers ((other, second) :: members) rest) (by
      simp only
      omega)
    have htext : (renderMembers ((other, second) :: members)).toList ++ rest =
        ',' :: ((quoted other).toList ++ ':' :: (second.render.toList ++
          ((renderMembers members).toList ++ rest))) := by
      simp [renderMembers]
    rw [htext] at hfirst ⊢
    have hbegins := (begins_quoted other).append (':' :: (second.render.toList ++
      ((renderMembers members).toList ++ rest)))
    rw [readMembers_more name hfirst hbegins, ih hmembers _ (by omega)]
    rfl

theorem readValue_array {fuel : Nat} {start : List Char} (h : Begins start) :
    readValue (fuel + 1) ('[' :: start) =
      (.array (readItems fuel start).1 (readItems fuel start).2.1, (readItems fuel start).2.2) := by
  have hdrop := h.dropSpace
  obtain ⟨c, cs, rfl, -, hc, -⟩ := h
  have hbracket : dropSpace ('[' :: c :: cs) = '[' :: c :: cs := rfl
  simp [readValue, hbracket, hdrop, hc]

theorem readValue_object {fuel : Nat} {start : List Char} (h : Begins start) :
    readValue (fuel + 1) ('\x7b' :: start) =
      (.object (readMembers fuel start).1 (readMembers fuel start).2.1,
        (readMembers fuel start).2.2) := by
  have hdrop := h.dropSpace
  obtain ⟨c, cs, rfl, -, -, hc⟩ := h
  have hbracket : dropSpace ('\x7b' :: c :: cs) = '\x7b' :: c :: cs := rfl
  simp [readValue, hbracket, hdrop, hc]

theorem reads_array {items : List Value} (h : ∀ v ∈ items, v.Reads ∧ v.Fits) :
    (array items).Reads := by
  intro fuel rest _ hfuel
  cases items with
  | nil =>
    have hlength : (array []).render.toList.length = 2 := rfl
    obtain ⟨fuel, rfl⟩ : ∃ n, fuel = n + 1 := Nat.exists_eq_add_one.mpr (by omega)
    rfl
  | cons first items =>
    have htext : (array (first :: items)).render.toList =
        '[' :: (first.render.toList ++ (renderItems items).toList) := by
      simp [render]
    rw [htext, List.length_cons, List.length_append] at hfuel
    obtain ⟨fuel, rfl⟩ : ∃ n, fuel = n + 1 := Nat.exists_eq_add_one.mpr (by omega)
    have hitems := readItems_render h fuel rest (by omega)
    have hbegins := (begins_render (h first List.mem_cons_self).2).append
      ((renderItems items).toList ++ rest)
    rw [htext, List.cons_append, List.append_assoc, readValue_array hbegins, hitems]
    rfl

theorem reads_object {members : List (String × Value)} (h : ∀ m ∈ members, m.2.Reads) :
    (object members).Reads := by
  intro fuel rest _ hfuel
  cases members with
  | nil =>
    have hlength : (object []).render.toList.length = 2 := rfl
    obtain ⟨fuel, rfl⟩ : ∃ n, fuel = n + 1 := Nat.exists_eq_add_one.mpr (by omega)
    rfl
  | cons first members =>
    obtain ⟨name, first⟩ := first
    have htext : (object ((name, first) :: members)).render.toList =
        '\x7b' :: ((quoted name).toList ++ ':' :: (first.render.toList ++
          (renderMembers members).toList)) := by
      simp [render]
    have hlength := congrArg List.length htext
    simp only [List.length_cons, List.length_append] at hlength
    obtain ⟨fuel, rfl⟩ : ∃ n, fuel = n + 1 := Nat.exists_eq_add_one.mpr (by omega)
    have hmembers := readMembers_render h fuel rest (by omega)
    have hbegins := (begins_quoted name).append (':' :: (first.render.toList ++
      ((renderMembers members).toList ++ rest)))
    rw [htext, List.cons_append, List.append_assoc, List.cons_append, List.append_assoc,
      readValue_object hbegins, hmembers]
    rfl

theorem reads_scalar {v : Value} (hne : Begins v.render.toList)
    (h : ∀ (fuel : Nat) (rest : List Char), Follows rest →
      readValue (fuel + 1) (v.render.toList ++ rest) = (v.node, some rest)) : v.Reads := by
  intro fuel rest hrest hfuel
  obtain ⟨c, cs, htext, -⟩ := hne
  rw [htext, List.length_cons] at hfuel
  obtain ⟨fuel, rfl⟩ : ∃ n, fuel = n + 1 := Nat.exists_eq_add_one.mpr (by omega)
  exact h fuel rest hrest

mutual

theorem reads : ∀ v : Value, v.Fits → v.Reads
  | .null, h => reads_scalar (begins_render h) fun _ _ _ => rfl
  | .bool true, h => reads_scalar (begins_render h) fun _ _ _ => rfl
  | .bool false, h => reads_scalar (begins_render h) fun _ _ _ => rfl
  | .integer _, h =>
    reads_scalar (begins_render h) fun fuel _ hrest => readValue_integer h hrest fuel
  | .string s, h => reads_scalar (begins_render h) fun fuel rest _ => readValue_string s rest fuel
  | .array items, h => reads_array (reads_items items h)
  | .object members, h => reads_object (reads_members members h)

theorem reads_items : ∀ items : List Value, FitsAll items → ∀ v ∈ items, v.Reads ∧ v.Fits
  | [], _ => nofun
  | item :: rest, h => List.forall_mem_cons.mpr ⟨⟨reads item h.1, h.1⟩, reads_items rest h.2⟩

theorem reads_members : ∀ members : List (String × Value), FitsMembers members →
    ∀ m ∈ members, m.2.Reads
  | [], _ => nofun
  | (_, value) :: rest, h => List.forall_mem_cons.mpr ⟨reads value h.1, reads_members rest h.2⟩

end

end Value

theorem parse_render {v : Value} (h : v.Fits) :
    Document.parse v.render.toList = { root := v.node, rest := some [] } := by
  have hread := Value.reads v h (2 * v.render.toList.length + 1) [] nofun (Nat.le_succ _)
  rw [List.append_nil] at hread
  rw [Document.parse, hread]

end IrFacts.Json
