import IrFacts.Ir.Location
import IrFacts.Ir.Type

/-!
# Statements and expressions

Every construct is an expression. Local variables, local classes and the
targets of calls are named by their declarations.
-/

set_option autoImplicit false

namespace IrFacts

/-- The source form a call or a branching came from, as far as it matters. -/
inductive StatementOrigin where
  | plus
  | minus
  | div
  | rem
  | eq
  | ne
  | lt
  | le
  | gt
  | ge
  | conditional
  | other
deriving DecidableEq, Repr, Inhabited

inductive TypeOperator where
  | cast
  | implicitCast
  | implicitNotNull
  | implicitCoercionToUnit
  | instanceOf
  | notInstanceOf
  | other
deriving DecidableEq, Repr, Inhabited

inductive ConstValue where
  | int (value : Int32)
  | short (value : Int16)
  | byte (value : Int8)
  | long (value : Int64)
  | float (value : Float32)
  | double (value : Float)
  | boolean (value : Bool)
  | char (value : Char)
  | string (value : String)
  | null
deriving Repr, Inhabited

structure Jump where
  loopId : LoopId
  label : Option String
deriving DecidableEq, Repr, Inhabited

mutual

inductive Statement where
  | expr (e : Expr)
  | variable (id : DeclId)
  | declaration (id : DeclId)

structure Expr where
  span : Span
  type : IrType
  kind : ExprKind

structure Call where
  callee : DeclId
  dispatchReceiver : Option Expr
  typeArguments : List IrType
  /-- An argument that is left to its default is absent. -/
  valueArguments : List (Option Expr)
  origin : Option StatementOrigin

structure Loop where
  id : LoopId
  label : Option String
  condition : Expr
  body : Option Expr

structure Catch where
  parameter : DeclId
  result : Expr

structure Branch where
  span : Span
  condition : Expr
  result : Expr
  isElse : Bool

inductive VarargElement where
  | expr (e : Expr)
  | spread (e : Expr)

inductive ExprKind where
  | delegatingConstructorCall (call : Call)
  | constructorCall (call : Call)
  | enumConstructorCall (call : Call)
  | call (call : Call)
  | instanceInitializerCall (classId : DeclId)
  | throwExpr (value : Expr)
  | breakExpr (jump : Jump)
  | continueExpr (jump : Jump)
  | returnExpr (value : Expr)
  | tryExpr (result : Expr) (catches : List Catch) (finish : Option Expr)
  | block (statements : List Statement)
  | whileLoop (loop : Loop)
  | doWhileLoop (loop : Loop)
  | stringConcatenation (arguments : List Expr)
  | const (value : ConstValue)
  | getValue (symbol : DeclId)
  | getField (field : DeclId)
  | getEnumValue (entry : DeclId)
  | setValue (symbol : DeclId) (value : Expr)
  | setField (field : DeclId) (value : Expr)
  | when (origin : Option StatementOrigin) (branches : List Branch)
  | getClass (argument : Expr)
  | typeOperator (operator : TypeOperator) (operand : IrType) (argument : Expr)
  | vararg (elements : List VarargElement)
  | getObjectValue (classId : DeclId)
  | unsupported (description : String)

end

instance : Inhabited Expr := ⟨⟨default, default, .const .null⟩⟩

namespace ExprKind

def describe : ExprKind → String
  | .delegatingConstructorCall _ => "delegating constructor call"
  | .constructorCall _ => "constructor call"
  | .enumConstructorCall _ => "enum constructor call"
  | .call _ => "call"
  | .instanceInitializerCall _ => "instance initializer call"
  | .throwExpr _ => "throw"
  | .breakExpr _ => "break"
  | .continueExpr _ => "continue"
  | .returnExpr _ => "return"
  | .tryExpr .. => "try"
  | .block _ => "block"
  | .whileLoop _ => "while"
  | .doWhileLoop _ => "do-while"
  | .stringConcatenation _ => "string concatenation"
  | .const _ => "constant"
  | .getValue _ => "get value"
  | .getField _ => "get field"
  | .getEnumValue _ => "get enum value"
  | .setValue .. => "set value"
  | .setField .. => "set field"
  | .when .. => "when"
  | .getClass _ => "get class"
  | .typeOperator .. => "type operator"
  | .vararg _ => "vararg"
  | .getObjectValue _ => "get object value"
  | .unsupported _ => "unsupported"

end ExprKind

/-! ## Size -/

mutual

def Statement.nodes : Statement → Nat
  | .expr e => e.nodes + 1
  | .variable _ => 1
  | .declaration _ => 1

def Expr.nodes : Expr → Nat
  | ⟨_, type, kind⟩ => type.nodes + kind.nodes + 1

def Call.nodes : Call → Nat
  | ⟨_, receiver, types, values, _⟩ =>
    Expr.nodesOfOption receiver + IrType.nodesOfAll types + Expr.nodesOfOptions values + 1

def Loop.nodes : Loop → Nat
  | ⟨_, _, condition, body⟩ => condition.nodes + Expr.nodesOfOption body + 1

def Catch.nodes : Catch → Nat
  | ⟨_, result⟩ => result.nodes + 1

def Branch.nodes : Branch → Nat
  | ⟨_, condition, result, _⟩ => condition.nodes + result.nodes + 1

def VarargElement.nodes : VarargElement → Nat
  | .expr e => e.nodes + 1
  | .spread e => e.nodes + 1

def ExprKind.nodes : ExprKind → Nat
  | .delegatingConstructorCall call => call.nodes
  | .constructorCall call => call.nodes
  | .enumConstructorCall call => call.nodes
  | .call call => call.nodes
  | .throwExpr value => value.nodes
  | .returnExpr value => value.nodes
  | .tryExpr result catches finish =>
    result.nodes + Catch.nodesOfAll catches + Expr.nodesOfOption finish
  | .block statements => Statement.nodesOfAll statements
  | .whileLoop loop => loop.nodes
  | .doWhileLoop loop => loop.nodes
  | .stringConcatenation arguments => Expr.nodesOfAll arguments
  | .setValue _ value => value.nodes
  | .setField _ value => value.nodes
  | .when _ branches => Branch.nodesOfAll branches
  | .getClass argument => argument.nodes
  | .typeOperator _ operand argument => operand.nodes + argument.nodes
  | .vararg elements => VarargElement.nodesOfAll elements
  | .instanceInitializerCall _ => 0
  | .breakExpr _ => 0
  | .continueExpr _ => 0
  | .const _ => 0
  | .getValue _ => 0
  | .getField _ => 0
  | .getEnumValue _ => 0
  | .getObjectValue _ => 0
  | .unsupported _ => 0

def Expr.nodesOfOption : Option Expr → Nat
  | none => 0
  | some e => e.nodes

def Expr.nodesOfOptions : List (Option Expr) → Nat
  | [] => 0
  | e :: rest => Expr.nodesOfOption e + Expr.nodesOfOptions rest

def Expr.nodesOfAll : List Expr → Nat
  | [] => 0
  | e :: rest => e.nodes + Expr.nodesOfAll rest

def Statement.nodesOfAll : List Statement → Nat
  | [] => 0
  | s :: rest => s.nodes + Statement.nodesOfAll rest

def Catch.nodesOfAll : List Catch → Nat
  | [] => 0
  | c :: rest => c.nodes + Catch.nodesOfAll rest

def Branch.nodesOfAll : List Branch → Nat
  | [] => 0
  | b :: rest => b.nodes + Branch.nodesOfAll rest

def VarargElement.nodesOfAll : List VarargElement → Nat
  | [] => 0
  | e :: rest => e.nodes + VarargElement.nodesOfAll rest

end

end IrFacts
