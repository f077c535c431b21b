/-!
# Severities

How much a diagnostic matters, with the codes that stand in the fact store.
-/

set_option autoImplicit false

namespace IrFacts

inductive Severity where
  | info
  | warnLow
  | warn
  | warnHigh
  /-- An error with little impact on analysis. -/
  | errorLow
  | error
  | errorHigh
  /-- A construct was not understood, and a placeholder stands in for it. -/
  | errorSevere
  | errorGlobal
deriving DecidableEq, Repr, Inhabited

namespace Severity

def code : Severity → Nat
  | .info => 0
  | .warnLow => 1
  | .warn => 2
  | .warnHigh => 3
  | .errorLow => 5
  | .error => 6
  | .errorHigh => 7
  | .errorSevere => 8
  | .errorGlobal => 9

def isError (s : Severity) : Bool := Severity.errorLow.code ≤ s.code

end Severity

end IrFacts
