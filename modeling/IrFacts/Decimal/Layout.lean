import IrFacts.Decimal.Shortest

/-!
# Laying out decimals

How the digits of a number are written is a record of decisions: the range of
exponents written positionally, the sign of a positive exponent, how ties
among shortest decimals go, and the words for values that are no number.
-/

set_option autoImplicit false

namespace IrFacts.Decimal

structure Layout where
  tie : Tie
  /-- Least exponent of the leading digit that is written positionally. -/
  least : Int
  /-- Greatest exponent of the leading digit that is written positionally. -/
  greatest : Int
  /-- Written between `e` and an exponent that is not negative. -/
  plus : String
  nan : String
  infinite : String
  negativeInfinite : String

def zeros (n : Nat) : String := String.ofList (List.replicate n '0')

def integerText (n : Int) (plus : String) : String :=
  if n < 0 then "-" ++ toString n.natAbs else plus ++ toString n.natAbs

/-- Positional form with at least one digit on each side of the point. -/
def Scientific.positional (s : Scientific) : String :=
  let digits := toString s.digits
  if 0 ≤ s.exponent then digits ++ zeros s.exponent.toNat ++ ".0"
  else
    let places := s.exponent.natAbs
    let all := (zeros (places + 1 - digits.length) ++ digits).toList
    let whole := all.length - places
    String.ofList (all.take whole) ++ "." ++ String.ofList (all.drop whole)

def Scientific.exponential (s : Scientific) (plus : String) : String :=
  let digits := (toString s.digits).toList
  let lead := s.exponent + ((digits.length : Int) - 1)
  let tail := digits.drop 1
  String.ofList (digits.take 1) ++
    (if tail.isEmpty then "" else "." ++ String.ofList tail) ++
    "e" ++ integerText lead plus

def Scientific.lead (s : Scientific) : Int :=
  s.exponent + (((toString s.digits).length : Int) - 1)

def Layout.write (l : Layout) : Floating → String
  | .nan => l.nan
  | .infinite false => l.infinite
  | .infinite true => l.negativeInfinite
  | .finite negative value =>
    let s := value.shortest l.tie
    (if negative then "-" else "") ++
      if s.digits = 0 then "0.0"
      else if l.least ≤ s.lead && s.lead ≤ l.greatest then s.positional
      else s.exponential l.plus

def factLayout : Layout :=
  { tie := .up, least := -4, greatest := 15, plus := ""
    nan := "NaN", infinite := "inf", negativeInfinite := "-inf" }

/-- Numbers in JSON documents, which have no word but `null` for the rest. -/
def jsonLayout : Layout :=
  { tie := .even, least := -5, greatest := 15, plus := "+"
    nan := "null", infinite := "null", negativeInfinite := "null" }

/-- Single-precision numbers in JSON documents. They have fewer digits, so the
positional ones end sooner. -/
def jsonSingleLayout : Layout := { jsonLayout with least := -6, greatest := 12 }

end IrFacts.Decimal
