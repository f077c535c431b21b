/-!
# Comparison of traps

Two traps are equivalent when they have the same number of lines and agree on
each, up to the text of comments. Lines are compared one pair at a time, and
both lines of a pair have to be text before they are compared, so what stands
behind the first difference is never looked at.
-/

set_option autoImplicit false

namespace IrFacts.Trap

abbrev Bytes := List UInt8

def dropReturn : Bytes → Bytes
  | [] => []
  | [b] => if b = 13 then [] else [b]
  | b :: rest => b :: dropReturn rest

/-- The lines of a file. A carriage return before a newline belongs to the
line end; one at the end of the file belongs to the line. -/
def linesOf (line : Bytes) : Bytes → List Bytes
  | [] => if line.isEmpty then [] else [line.reverse]
  | b :: rest =>
    if b = 10 then dropReturn line.reverse :: linesOf [] rest else linesOf (b :: line) rest

def isText (line : Bytes) : Bool := (String.fromUTF8? ⟨line.toArray⟩).isSome

def isComment : Bytes → Bool
  | a :: b :: _ => a = 47 && b = 47
  | _ => false

/-- Whether two lines say the same. -/
def sameLine (a b : Bytes) : Bool := a = b || (isComment a && isComment b)

/-- What makes a comparison fail: a line that is not UTF-8. -/
inductive ComparisonError where
  | invalidText
deriving DecidableEq, Repr

def compareLines : List Bytes → List Bytes → Except ComparisonError Bool
  | [], [] => .ok true
  | a :: _, [] => if isText a then .ok false else .error .invalidText
  | [], b :: _ => if isText b then .ok false else .error .invalidText
  | a :: as, b :: bs =>
    if !isText a || !isText b then .error .invalidText
    else if sameLine a b then compareLines as bs
    else .ok false

def equivalent (a b : Bytes) : Except ComparisonError Bool :=
  compareLines (linesOf [] a) (linesOf [] b)

end IrFacts.Trap
