import IrFacts.Json.Node
import IrFacts.Text.Natural

/-!
# Numbers of a document

The lexical form of a number is an optional sign, digits without a leading
zero, and optionally a fraction and an exponent. A number with neither of
the last two is an integer as long as it fits 64 bits. Any other is the
product or quotient of its leading digits, as many as fit 64 bits, and one
power of ten; that is one rounding for most numbers, and two for a few.
-/

set_option autoImplicit false

namespace IrFacts.Json

structure NumberText where
  negative : Bool
  whole : List Char
  /-- Digits behind the point. -/
  fraction : Option (List Char)
  /-- Whether the exponent is negative, and its digits. -/
  exponent : Option (Bool × List Char)

/-- What is left of the text after a number, or the fault of a text that only
starts like one. -/
abbrev NumberLexing := Except Fault (NumberText × List Char)

def endFault : List Char → Fault
  | [] => .truncated
  | _ => .malformed

def lexExponent (t : NumberText) : List Char → NumberLexing
  | c :: rest =>
    if c = 'e' || c = 'E' then
      let (negative, digits) := match rest with
        | '+' :: r => (false, r)
        | '-' :: r => (true, r)
        | r => (false, r)
      match digits.takeWhile Char.isDigit, digits.dropWhile Char.isDigit with
      | [], r => .error (endFault r)
      | ds, r => .ok ({ t with exponent := some (negative, ds) }, r)
    else .ok (t, c :: rest)
  | [] => .ok (t, [])

def lexFraction (t : NumberText) : List Char → NumberLexing
  | '.' :: rest =>
    match rest.takeWhile Char.isDigit, rest.dropWhile Char.isDigit with
    | [], r => .error (endFault r)
    | ds, r => lexExponent { t with fraction := some ds } r
  | rest => lexExponent t rest

/-- Splits the text of a number, sign included, off the front of a text. -/
def lexNumber (text : List Char) : NumberLexing :=
  let (negative, body) := match text with
    | '-' :: r => (true, r)
    | r => (false, r)
  match body.takeWhile Char.isDigit, body.dropWhile Char.isDigit with
  | [], r => .error (endFault r)
  | '0' :: _ :: _, _ => .error .malformed
  | ds, r => lexFraction ⟨negative, ds, none, none⟩ r

/-- Appends digits to an integer, with the number of digits taken. Taking
stops before the first digit that would reach `2 ^ 64`. -/
def appendDigits (n taken : Nat) : List Char → Nat × Nat
  | [] => (n, taken)
  | c :: rest =>
    let next := 10 * n + Text.digitValue c
    if next < UInt64.size then appendDigits next (taken + 1) rest else (n, taken)

private def powerOfTen (n : Nat) : Float := Float.ofScientific 1 false n

/-- The value of `f * 10 ^ exponent`, in steps of at most `10 ^ 308`. None
means that the result is beyond the range. -/
def scale : Nat → Float → Int → Option Float
  | 0, _, _ => none
  | fuel + 1, f, exponent =>
    if exponent.natAbs ≤ 308 then
      if 0 ≤ exponent then
        let g := f * powerOfTen exponent.natAbs
        if g.isInf then none else some g
      else some (f / powerOfTen exponent.natAbs)
    else if f == 0.0 then some f
    else if 0 ≤ exponent then none
    else scale fuel (f / powerOfTen 308) (exponent + 308)

/-- The number as a binary one, if it is in range. Digits of the whole part
that are not taken count as zeros, those of the fraction as absent. Two steps
down bring any integer below `2 ^ 64` to zero, so `scale` gets enough of them. -/
def NumberText.real (t : NumberText) : Option Float :=
  let fraction := t.fraction.getD []
  let (whole, wholeTaken) := appendDigits 0 0 t.whole
  let (n, fractionTaken) := appendDigits whole 0 fraction
  let start : Int := t.whole.length - wholeTaken - fractionTaken
  let signed (x : Float) : Float := if t.negative then -x else x
  match t.exponent with
  | none => (scale 4 n.toUInt64.toFloat start).map signed
  | some (down, ds) =>
    let written := Text.naturalOfDigits ds
    if 0x80000000 ≤ written then
      if n = 0 || down then some (signed 0.0) else none
    else
      (scale 4 n.toUInt64.toFloat (if down then start - written else start + written)).map signed

def NumberText.value (t : NumberText) : Except Fault Numeral :=
  let n := Text.naturalOfDigits t.whole
  if t.fraction.isNone && t.exponent.isNone && n < UInt64.size then
    if !t.negative then .ok (.natural n)
    else if 0 < n && n ≤ 0x8000000000000000 then .ok (.negative (-n))
    else .ok (.real (-n.toUInt64.toFloat))
  else match t.real with
    | some x => .ok (.real x)
    | none => .error .malformed

end IrFacts.Json
