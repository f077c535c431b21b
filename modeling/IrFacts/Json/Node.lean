/-!
# Document trees

A `Node` is what was read of a JSON text, and it also says where reading came
to an end: a text that breaks off or goes wrong still has a tree, whose last
part holds the fault. A reader of the tree that goes through it in the order
of the text meets the faults of the text in that order too.

Numbers and strings carry two verdicts, since a part of the document that
nobody asks for is only skipped: a number out of range or half of a surrogate
pair is a fault of a value that is wanted, not of one that is skipped.
-/

set_option autoImplicit false

namespace IrFacts.Json

/-- Why a document could not be read. -/
inductive Fault where
  /-- The text is not JSON. -/
  | malformed
  /-- The text is JSON for something else. -/
  | mismatched
  /-- The text ends too early. -/
  | truncated
deriving DecidableEq, Repr, Inhabited

inductive Numeral where
  /-- Written without sign, fraction or exponent, below `2 ^ 64`. -/
  | natural (n : Nat)
  /-- Written without fraction or exponent, at least `-2 ^ 63` and below zero. -/
  | negative (n : Int)
  | real (x : Float)
deriving Repr, Inhabited

inductive Ending where
  | closed
  /-- Neither a comma nor the closing bracket stands there. -/
  | broken (fault : Fault)
  /-- A comma stands there, but nothing that could follow it. -/
  | afterComma (fault : Fault)
deriving DecidableEq, Repr

/-- The string in front of a value in an object, with the same two verdicts. -/
structure Key where
  value : Except Fault String
  skipped : Option Fault
deriving Inhabited

inductive Node where
  | null
  | bool (value : Bool)
  | number (value : Except Fault Numeral) (skipped : Option Fault)
  | string (value : Except Fault String) (skipped : Option Fault)
  | array (items : List Node) (ending : Ending)
  | object (members : List (Key × Node)) (ending : Ending)
  /-- A word that starts like `null` and goes wrong. -/
  | almostNull (fault : Fault)
  /-- Any other word or sign that starts no value. -/
  | junk (fault : Fault)
  /-- Reading ends before the value. -/
  | cut (fault : Fault)
deriving Inhabited

namespace Ending

def fault? : Ending → Option Fault
  | .closed => none
  | .broken fault => some fault
  | .afterComma fault => some fault

end Ending

namespace Node

mutual
/-- The first fault met by a reader that skips the value. -/
def skip : Node → Option Fault
  | .null => none
  | .bool _ => none
  | .number _ skipped => skipped
  | .string _ skipped => skipped
  | .array items ending => (skipItems items).or ending.fault?
  | .object members ending => (skipMembers members).or ending.fault?
  | .almostNull fault => some fault
  | .junk fault => some fault
  | .cut fault => some fault

def skipItems : List Node → Option Fault
  | [] => none
  | item :: rest => item.skip.or (skipItems rest)

def skipMembers : List (Key × Node) → Option Fault
  | [] => none
  | (key, value) :: rest => (key.skipped.or value.skip).or (skipMembers rest)
end

/-- The fault of a reader that wants a value of another kind: what is wrong
with a value that it has to read to see what it is, and a mismatch otherwise. -/
def mismatch : Node → Fault
  | .number (.error fault) _ => fault
  | .string (.error fault) _ => fault
  | .almostNull fault => fault
  | .junk fault => fault
  | .cut fault => fault
  | _ => .mismatched

end Node

end IrFacts.Json
