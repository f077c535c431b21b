/-!
# Natural numbers in text

Decimal digits behind an optional plus sign. Leading zeros are allowed, and a
number has to stay below a bound.
-/

set_option autoImplicit false

namespace IrFacts.Text

def digitValue (c : Char) : Nat := c.toNat - '0'.toNat

def naturalOfDigits (ds : List Char) : Nat := ds.foldl (fun n d => 10 * n + digitValue d) 0

def readNatural (bound : Nat) (text : List Char) : Option Nat :=
  let digits := match text with
    | '+' :: rest => rest
    | _ => text
  if digits.isEmpty || !digits.all Char.isDigit then none
  else
    let n := naturalOfDigits digits
    if n < bound then some n else none

end IrFacts.Text
