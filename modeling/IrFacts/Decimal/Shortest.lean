/-!
# Shortest decimals

A finite binary number is `mantissa * 2 ^ exponent`. The reals nearer to it
than to its neighbours form an interval; among the decimals in that interval
`shortest` picks one with the fewest digits, of those the nearest, and of two
equally near ones the one that `Tie` names.
-/

set_option autoImplicit false

namespace IrFacts.Decimal

/-- The positive number `mantissa * 2 ^ exponent`. -/
structure Binary where
  mantissa : Nat
  exponent : Int
  /-- The neighbour below is only half as far away as the one above. -/
  narrowBelow : Bool
deriving DecidableEq, Repr

inductive Tie where
  | even
  | up
deriving DecidableEq, Repr

/-- A value on the line that binary formats round to. -/
inductive Floating where
  | nan
  | infinite (negative : Bool)
  | finite (negative : Bool) (value : Binary)
deriving DecidableEq, Repr

/-- Reads the fields of a binary format with the given field widths. -/
def Floating.ofBits (fractionBits exponentBits bits : Nat) : Floating :=
  let negative := bits / Nat.pow 2 (fractionBits + exponentBits) % 2 = 1
  let biased := bits / Nat.pow 2 fractionBits % Nat.pow 2 exponentBits
  let fraction := bits % Nat.pow 2 fractionBits
  let bias : Int := Nat.pow 2 (exponentBits - 1) - 1
  if biased = Nat.pow 2 exponentBits - 1 then
    if fraction = 0 then .infinite negative else .nan
  else if biased = 0 then
    .finite negative ⟨fraction, 1 - bias - fractionBits, false⟩
  else
    .finite negative
      ⟨Nat.pow 2 fractionBits + fraction, biased - bias - fractionBits, fraction = 0 && biased ≠ 1⟩

def ofFloat (x : Float) : Floating := .ofBits 52 11 x.toBits.toNat

def ofFloat32 (x : Float32) : Floating := .ofBits 23 8 x.toBits.toNat

structure Scientific where
  digits : Nat
  exponent : Int
deriving DecidableEq, Repr

/-- The grid of multiples of `10 ^ power`, against a quarter of the unit in
the last place of a binary number: `c * 10 ^ power` is `x` quarters exactly
when `c * step = x * quarter`. -/
structure Grid where
  step : Nat
  quarter : Nat

def Binary.grid (b : Binary) (power : Int) : Grid :=
  let twos := b.exponent - 2
  { step := Nat.pow 10 power.toNat * Nat.pow 2 (-twos).toNat
    quarter := Nat.pow 10 (-power).toNat * Nat.pow 2 twos.toNat }

/-- Whether `c` points of the grid round to `b`. The ends of the interval
belong to it exactly when the mantissa is even. -/
def Binary.roundsFrom (b : Binary) (g : Grid) (c : Nat) : Bool :=
  let low := (4 * b.mantissa - (if b.narrowBelow then 1 else 2)) * g.quarter
  let high := (4 * b.mantissa + 2) * g.quarter
  if b.mantissa % 2 = 0 then low ≤ c * g.step && c * g.step ≤ high
  else low < c * g.step && c * g.step < high

/-- The better of the two grid points around `b`, if one rounds to it. -/
def Binary.onGrid (b : Binary) (tie : Tie) (power : Int) : Option Nat :=
  let g := b.grid power
  let value := 4 * b.mantissa * g.quarter
  let below := value / g.step
  let above := below + 1
  match b.roundsFrom g below, b.roundsFrom g above with
  | false, false => none
  | true, false => some below
  | false, true => some above
  | true, true =>
    let toBelow := value - below * g.step
    let toAbove := above * g.step - value
    if toBelow < toAbove then some below
    else if toAbove < toBelow then some above
    else match tie with
      | .up => some above
      | .even => if below % 2 = 0 then some below else some above

/-- The number of decimal digits before the point less one, for a value of at
least one; below one, minus the place of the first digit that is not zero. -/
def Binary.magnitude (b : Binary) : Int :=
  let num := b.mantissa * Nat.pow 2 b.exponent.toNat
  let den := Nat.pow 2 (-b.exponent).toNat
  if den ≤ num then
    ((toString (num / den)).length : Int) - 1
  else
    -- `den / num` is above one, so the first power of ten to reach it is found
    -- within one place of its number of digits.
    let places := (toString (den / num)).length
    if den ≤ num * Nat.pow 10 (places - 1) then -((places : Int) - 1) else -(places : Int)

def stripZeros : Nat → Scientific → Scientific
  | 0, s => s
  | fuel + 1, s =>
    if s.digits % 10 = 0 && s.digits ≠ 0 then
      stripZeros fuel ⟨s.digits / 10, s.exponent + 1⟩
    else s

/-- Tries the grids from the coarsest on: `count` more of them, the next one
at `power`. The fallback is never taken for the formats above, whose values
all have a point on the grid of seventeen digits. -/
def Binary.search (b : Binary) (tie : Tie) : Nat → Int → Scientific
  | 0, _ => ⟨0, 0⟩
  | count + 1, power =>
    match b.onGrid tie power with
    | some c => stripZeros 20 ⟨c, power⟩
    | none => b.search tie count (power - 1)

/-- The shortest decimal that rounds to `b`; its last digit is not zero. -/
def Binary.shortest (b : Binary) (tie : Tie) : Scientific :=
  if b.mantissa = 0 then ⟨0, 0⟩ else b.search tie 17 b.magnitude

end IrFacts.Decimal
