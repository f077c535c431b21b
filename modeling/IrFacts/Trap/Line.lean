import IrFacts.Decimal.Layout
import IrFacts.Trap.Label

/-!
# Lines of a trap

A trap is a sequence of lines: comments, definitions of labels, and facts.
What a line says is kept apart from how it is written.
-/

set_option autoImplicit false

namespace IrFacts.Trap

inductive Arg where
  | label (l : Label)
  | text (s : String)
  | int (n : Int)
  | float (x : Float)
deriving Repr, Inhabited

structure Fact where
  relation : String
  args : List Arg
deriving Repr, Inhabited

inductive Line where
  | comment (text : String)
  /-- The label of a key. -/
  | define (label : Label) (key : String)
  /-- A label of its own, found under no key. -/
  | fresh (label : Label)
  | fact (f : Fact)
deriving Repr, Inhabited

/-- Writes every quote of a text twice. -/
def doubleQuotes : List Char → List Char
  | [] => []
  | c :: rest => if c = '"' then '"' :: '"' :: doubleQuotes rest else c :: doubleQuotes rest

def escape (s : String) : String := String.ofList (doubleQuotes s.toList)

def Arg.render : Arg → String
  | .label l => l.render
  | .text s => "\"" ++ escape s ++ "\""
  | .int n => toString n
  | .float x => Decimal.factLayout.write (Decimal.ofFloat x)

def Fact.render (f : Fact) : String :=
  f.relation ++ "(" ++ ",".intercalate (f.args.map Arg.render) ++ ")"

def Line.render : Line → String
  | .comment text => "// " ++ text
  | .define label key => label.render ++ "=@\"" ++ key ++ "\""
  | .fresh label => label.render ++ "=*"
  | .fact f => f.render

end IrFacts.Trap
