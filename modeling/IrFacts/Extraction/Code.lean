import IrFacts.Extraction.Members

/-!
# Statements and expressions

The program does not tell statements from expressions, the fact store does:
every node is attached to a statement slot or to an expression slot of its
parent. A node of the other kind is wrapped, an expression in an expression
statement and a statement in a statement expression.

Code contains code, local variables have initializers, and local classes have
members, so the steps below are written over `Walk`, the operations through
which every circle passes.
-/

set_option autoImplicit false

namespace IrFacts

/-- Where a node is attached: under a parent, at an index. -/
structure Slot where
  isStatement : Bool
  parent : Label
  index : Int
deriving DecidableEq, Repr, Inhabited

namespace Slot

def statement (parent : Label) (index : Int) : Slot := ⟨true, parent, index⟩

def expression (parent : Label) (index : Int) : Slot := ⟨false, parent, index⟩

end Slot

/-- Projection, and what a walk needs of itself. -/
structure Walk extends Projection where
  expression : (callable : Label) → Slot → Expr → Extract Unit
  classDeclaration : DeclId → Extract Label

def StatementOrigin.operator? : StatementOrigin → Option Trap.ExprKind
  | .plus => some .add
  | .minus => some .sub
  | .div => some .div
  | .rem => some .rem
  | .eq => some .eq
  | .ne => some .ne
  | .lt => some .lt
  | .le => some .le
  | .gt => some .gt
  | .ge => some .ge
  | .conditional => none
  | .other => none

namespace TypeOperator

def exprKind? : TypeOperator → Option Trap.ExprKind
  | .cast => some .cast
  | .implicitCast => some .cast
  | .implicitNotNull => some .cast
  | .implicitCoercionToUnit => some .cast
  | .instanceOf => some .instanceOf
  | .notInstanceOf => some .notInstanceOf
  | .other => none

end TypeOperator

namespace ConstValue

/-- The kind of a literal, and its text if it has one. -/
def literal : ConstValue → Trap.ExprKind × Option String
  | .int v => (.integerLiteral, some (toString v.toInt))
  | .short v => (.integerLiteral, some (toString v.toInt))
  | .byte v => (.integerLiteral, some (toString v.toInt))
  | .long v => (.longLiteral, some (toString v.toInt))
  | .float v => (.floatLiteral, some (Decimal.factLayout.write (Decimal.ofFloat32 v)))
  | .double v => (.doubleLiteral, some (Decimal.factLayout.write (Decimal.ofFloat v)))
  | .boolean v => (.booleanLiteral, some (if v then "true" else "false"))
  | .char v => (.characterLiteral, some (String.singleton v))
  | .string v => (.stringLiteral, some v)
  | .null => (.nullLiteral, none)

end ConstValue

namespace Walk

open Extract

variable (w : Walk) (callable : Label)

def statementSlot (parent : Label) (index : Int) (e : Expr) : Extract Unit :=
  w.expression callable (.statement parent index) e

def expressionSlot (parent : Label) (index : Int) (e : Expr) : Extract Unit :=
  w.expression callable (.expression parent index) e

/-! ## Rows -/

def exprRow (kind : Trap.ExprKind) (type : IrType) (span : Span) (parent : Label) (index : Int) :
    Extract Label := do
  let id ← fresh
  let type ← w.type true type
  writeExpr id kind type.host.label type.rich.label parent index
  locate id span
  write (.callableEnclosingExpr id callable)
  return id

def nodeRow (kind : Trap.ExprKind) (e : Expr) (slot : Slot) : Extract Label :=
  w.exprRow callable kind e.type e.span slot.parent slot.index

def stmtRow (kind : Trap.StmtKind) (span : Span) (slot : Slot) : Extract Label := do
  let id ← fresh
  write (.stmts id kind slot.parent slot.index callable)
  locate id span
  return id

/-- An expression slot for a node, made by an expression statement if there is
only a statement slot. -/
def asExpression (e : Expr) (slot : Slot) : Extract Slot := do
  if slot.isStatement then return .expression (← stmtRow callable .exprStmt e.span slot) 0
  else return slot

/-- A statement slot for a node, made by a statement expression if there is
only an expression slot. -/
def asStatement (e : Expr) (slot : Slot) : Extract Slot := do
  if slot.isStatement then return slot
  else return .statement (← w.nodeRow callable .stmtExpr e slot) 0

/-! ## Variables and statements -/

def variableExpr (id : DeclId) (parent : Label) (index : Int) : Extract Unit := do
  match (← read).decl? id with
  | some ⟨_, _, span, .variable v⟩ =>
    let variableLabel ← Projection.localVariable id
    let expr ← fresh
    let type ← w.type true v.type
    let place ← location span
    write (.localvars variableLabel v.name type.host.label type.rich.label expr)
    write (.hasLocation variableLabel place)
    writeExpr expr .localVariableDecl type.host.label type.rich.label parent index
    write (.hasLocation expr place)
    write (.callableEnclosingExpr expr callable)
    match v.initializer with
    | some e => w.expressionSlot callable expr 0 e
    | none => pure ()
  | _ => complain (.notVariable id)

def variableStatement (id : DeclId) (slot : Slot) : Extract Unit := do
  let span := match (← read).decl? id with
    | some d => d.span
    | none => .undefined
  let stmt ← stmtRow callable .localVariableDecl span slot
  w.variableExpr callable id stmt 1

def localDeclaration (id : DeclId) (slot : Slot) : Extract Unit := do
  match (← read).decl? id with
  | none => complain (.noLocalDeclaration id)
  | some ⟨_, _, span, .class _⟩ =>
    let _ ← stmtRow callable .localTypeDecl span slot
    let _ ← w.classDeclaration id
  | some d => complainAt (.localDeclaration d.kind.describe) d.span

def statement (parent : Label) (index : Int) : Statement → Extract Unit
  | .expr e => w.statementSlot callable parent index e
  | .variable id => w.variableStatement callable id (.statement parent index)
  | .declaration id => w.localDeclaration callable id (.statement parent index)

/-- Statements in the slots of a block, from `first` on. -/
def statements (block : Label) (first : Nat) (statements : List Statement) : Extract Unit :=
  (statements.zipIdx first).forM fun (s, index) => w.statement callable block index s

/-! ## Calls -/

/-- Value arguments stand at their positions. One that is left out leaves a gap. -/
def valueArguments (call : Call) (id : Label) : Extract Unit :=
  call.valueArguments.zipIdx.forM fun (argument, index) => do
    match argument with
    | some e => w.expressionSlot callable id index e
    | none => pure ()

def receiver (call : Call) (id : Label) (index : Int) : Extract Unit := do
  match call.dispatchReceiver with
  | some e => w.expressionSlot callable id index e
  | none => pure ()

def typeArgument (id : Label) (type : TypeViews) (parent : Label) (index : Int) :
    Extract Unit := do
  writeExpr id .typeAccess type.host.label type.rich.label parent index
  write (.callableEnclosingExpr id callable)

def operands (call : Call) : List Expr :=
  call.dispatchReceiver.toList ++ call.valueArguments.filterMap id

def operator? (call : Call) : Option (Trap.ExprKind × Expr × Expr) := do
  let kind ← (← call.origin).operator?
  match operands call with
  | [left, right] => some (kind, left, right)
  | _ => none

def methodCall (e : Expr) (call : Call) (slot : Slot) : Extract Unit := do
  let id ← w.nodeRow callable .methodAccess e slot
  write (.callableBinding id (← w.function call.callee))
  call.typeArguments.zipIdx.forM fun (argument, index) => do
    let access ← fresh
    let type ← w.type false argument
    typeArgument callable access type id (-2 - Int.ofNat index)
  w.receiver callable call id (-1)
  w.valueArguments callable call id

def call (e : Expr) (call : Call) (slot : Slot) : Extract Unit := do
  let slot ← asExpression callable e slot
  match operator? call with
  | some (kind, left, right) =>
    let id ← w.nodeRow callable kind e slot
    w.expressionSlot callable id 0 left
    w.expressionSlot callable id 1 right
  | none => w.methodCall callable e call slot

def constructorCall (e : Expr) (call : Call) (slot : Slot) : Extract Unit := do
  let slot ← asExpression callable e slot
  let id ← w.nodeRow callable .newExpr e slot
  write (.callableBinding id (← w.function call.callee))
  w.valueArguments callable call id
  w.receiver callable call id (-2)
  if !call.typeArguments.isEmpty then
    let access ← w.exprRow callable .typeAccess e.type e.span id (-3)
    call.typeArguments.zipIdx.forM fun (argument, index) => do
      let type ← w.type false argument
      typeArgument callable (← fresh) type access index

/-- Whether a constructor of the class of the current function is called, or
one of another class. -/
def delegationKind (p : Program) (current callee : DeclId) : Trap.StmtKind :=
  match p.parentClass? current with
  | some own =>
    if p.parentClass? callee = some own then .constructorInvocation
    else .superConstructorInvocation
  | none => .superConstructorInvocation

def delegatingCall (e : Expr) (call : Call) (slot : Slot) : Extract Unit := do
  match (← get).currentFunction with
  | none => complainAt .delegationOutside e.span
  | some current =>
    let slot ← w.asStatement callable e slot
    let stmt ← stmtRow callable (delegationKind (← read) current call.callee) e.span slot
    write (.callableBinding stmt (← w.function call.callee))
    w.valueArguments callable call stmt
    w.receiver callable call stmt (-1)

def initializerCall (e : Expr) (id : DeclId) (slot : Slot) : Extract Unit := do
  let slot ← asExpression callable e slot
  let row ← w.nodeRow callable .methodAccess e slot
  let unit := (← read).builtinType "Unit"
  write (.callableBinding row (← labelFor (← w.callableKey (.decl id) "<obinit>" [] unit)))

/-! ## Control flow -/

def simpleStatement (kind : Trap.StmtKind) (e value : Expr) (slot : Slot) : Extract Unit := do
  let slot ← w.asStatement callable e slot
  let stmt ← stmtRow callable kind e.span slot
  w.expressionSlot callable stmt 0 value

def jump (kind : Trap.StmtKind) (e : Expr) (jump : Jump) (slot : Slot) : Extract Unit := do
  let slot ← w.asStatement callable e slot
  let stmt ← stmtRow callable kind e.span slot
  match jump.label with
  | some label => write (.namestrings label "" stmt)
  | none => pure ()
  match (← get).openLoops.lookup jump.loopId with
  | some target => write (.ktBreakContinueTargets stmt target)
  | none => complainAt (.jumpTarget kind.name) e.span

def openLoop (id : LoopId) (label : Label) : Extract Unit :=
  modify fun s => { s with openLoops := (id, label) :: s.openLoops.filter (·.1 ≠ id) }

def closeLoop (id : LoopId) : Extract Unit :=
  modify fun s => { s with openLoops := s.openLoops.filter (·.1 ≠ id) }

/-- The slot of a loop: a label in the source is a statement around it. -/
def loopSlot (e : Expr) (loop : Loop) (slot : Slot) : Extract Slot := do
  match loop.label with
  | some label =>
    let labeled ← stmtRow callable .labeled e.span slot
    write (.namestrings label "" labeled)
    return .statement labeled 0
  | none => return slot

def loop (kind : Trap.StmtKind) (e : Expr) (loop : Loop) (slot : Slot) : Extract Unit := do
  let slot ← w.asStatement callable e slot
  let slot ← loopSlot callable e loop slot
  let stmt ← stmtRow callable kind e.span slot
  openLoop loop.id stmt
  w.expressionSlot callable stmt 0 loop.condition
  match loop.body with
  | some body => w.statementSlot callable stmt 1 body
  | none => pure ()
  closeLoop loop.id

def catchClause (stmt : Label) (index : Nat) (c : Catch) : Extract Unit := do
  let clause ← stmtRow callable .catchClause c.result.span (.statement stmt index)
  w.variableExpr callable c.parameter clause 0
  w.statementSlot callable clause 1 c.result

def tryStatement (e result : Expr) (catches : List Catch) (finish : Option Expr) (slot : Slot) :
    Extract Unit := do
  let slot ← w.asStatement callable e slot
  let stmt ← stmtRow callable .tryStmt e.span slot
  w.statementSlot callable stmt (-1) result
  catches.zipIdx.forM fun (c, index) => w.catchClause callable stmt index c
  match finish with
  | some e => w.statementSlot callable stmt (-2) e
  | none => pure ()

def branch (id : Label) (index : Nat) (b : Branch) : Extract Unit := do
  let row ← fresh
  write (.whenBranch row id index)
  locate row b.span
  w.expressionSlot callable row 0 b.condition
  w.statementSlot callable row 1 b.result
  if b.isElse then write (.whenBranchElse row)

def whenExpr (e : Expr) (origin : Option StatementOrigin) (branches : List Branch) (slot : Slot) :
    Extract Unit := do
  let slot ← asExpression callable e slot
  let id ← w.nodeRow callable .when e slot
  if origin = some .conditional then write (.whenIf id)
  branches.zipIdx.forM fun (b, index) => w.branch callable id index b

/-! ## Values -/

def constant (e : Expr) (value : ConstValue) (slot : Slot) : Extract Unit := do
  let slot ← asExpression callable e slot
  let id ← w.nodeRow callable value.literal.1 e slot
  match value.literal.2 with
  | some text => write (.namestrings text text id)
  | none => pure ()

/-- What `this` stands for: the receiver of a class or of a function. -/
def thisQualifier (e : Expr) (symbol owner : DeclId) (id : Label) : Extract Unit := do
  match (← read).kind? owner with
  | some (.class c) =>
    if c.thisReceiver = some symbol then
      let _ ← w.exprRow callable .typeAccess e.type e.span id 0
    else complainAt .thisOfClass e.span
  | some (.function f) =>
    if f.dispatchReceiver = some symbol && f.extensionReceiver.isSome then
      complainAt .thisOfFunction e.span
  | _ => pure ()

def readValue (e : Expr) (symbol : DeclId) (slot : Slot) : Extract Unit := do
  let slot ← asExpression callable e slot
  let variableRow : Extract Unit := do
    let id ← w.nodeRow callable .varAccess e slot
    write (.variableBinding id (← w.value symbol))
  match (← read).decl? symbol with
  | some ⟨parent, _, _, .valueParameter v⟩ =>
    if v.index = -1 then
      let id ← w.nodeRow callable .thisAccess e slot
      match parent with
      | .decl owner => w.thisQualifier callable e symbol owner id
      | _ => pure ()
    else variableRow
  | _ => variableRow

def readMember (e : Expr) (target : Extract Label) (slot : Slot) : Extract Unit := do
  let slot ← asExpression callable e slot
  let id ← w.nodeRow callable .varAccess e slot
  write (.variableBinding id (← target))

/-- The target of an assignment is labelled before anything is written of it. -/
def assignment (e : Expr) (id : DeclId) (target : Extract Label) (value : Expr) (slot : Slot) :
    Extract Unit := do
  let slot ← asExpression callable e slot
  let target ← target
  let row ← w.nodeRow callable .assign e slot
  let left ← w.exprRow callable .varAccess (Projection.valueType (← read) id) e.span row 0
  write (.variableBinding left target)
  w.expressionSlot callable row 1 value

def typeOperation (e : Expr) (operator : TypeOperator) (operand : IrType) (argument : Expr)
    (slot : Slot) : Extract Unit := do
  match operator.exprKind? with
  | none => complainAt .typeOperator e.span
  | some kind =>
    let slot ← asExpression callable e slot
    let id ← w.nodeRow callable kind e slot
    let isCast : Bool := kind = .cast
    let _ ← w.exprRow callable .typeAccess operand e.span id (if isCast then 0 else 1)
    w.expressionSlot callable id (if isCast then 1 else 0) argument

def varargElement (id : Label) (index : Nat) : VarargElement → Extract Unit
  | .expr e => w.expressionSlot callable id index e
  | .spread e => complainAt .spread e.span

def objectValue (e : Expr) (id : DeclId) (slot : Slot) : Extract Unit := do
  let slot ← asExpression callable e slot
  let row ← w.nodeRow callable .varAccess e slot
  match (← read).class? id with
  | none => complainAt (.objectOfNonClass id) e.span
  | some c =>
    if c.isCompanion then
      match ← w.companionField? id with
      | some (field, _) => write (.variableBinding row field)
      | none => pure ()
    else write (.variableBinding row (← w.objectField id).1)

/-! ## The step of an expression -/

def block (e : Expr) (statements : List Statement) (slot : Slot) : Extract Unit := do
  let slot ← w.asStatement callable e slot
  let block ← stmtRow callable .block e.span slot
  w.statements callable block 0 statements

def compound (kind : Trap.ExprKind) (e : Expr) (parts : List Expr) (slot : Slot) :
    Extract Unit := do
  let slot ← asExpression callable e slot
  let id ← w.nodeRow callable kind e slot
  parts.zipIdx.forM fun (part, index) => w.expressionSlot callable id index part

def vararg (e : Expr) (elements : List VarargElement) (slot : Slot) : Extract Unit := do
  let slot ← asExpression callable e slot
  let id ← w.nodeRow callable .vararg e slot
  elements.zipIdx.forM fun (element, index) => w.varargElement callable id index element

def expressionStep (slot : Slot) (e : Expr) : Extract Unit := do
  match e.kind with
  | .call call => w.call callable e call slot
  | .constructorCall call => w.constructorCall callable e call slot
  | .enumConstructorCall call => w.constructorCall callable e call slot
  | .delegatingConstructorCall call => w.delegatingCall callable e call slot
  | .instanceInitializerCall id => w.initializerCall callable e id slot
  | .throwExpr value => w.simpleStatement callable .throwStmt e value slot
  | .returnExpr value => w.simpleStatement callable .returnStmt e value slot
  | .breakExpr jump => w.jump callable .breakStmt e jump slot
  | .continueExpr jump => w.jump callable .continueStmt e jump slot
  | .tryExpr result catches finish => w.tryStatement callable e result catches finish slot
  | .block statements => w.block callable e statements slot
  | .whileLoop loop => w.loop callable .whileStmt e loop slot
  | .doWhileLoop loop => w.loop callable .doStmt e loop slot
  | .stringConcatenation parts => w.compound callable .stringTemplate e parts slot
  | .const value => w.constant callable e value slot
  | .getValue symbol => w.readValue callable e symbol slot
  | .getField field => w.readMember callable e (w.field field) slot
  | .getEnumValue entry => w.readMember callable e (w.enumEntry entry) slot
  | .setValue symbol value => w.assignment callable e symbol (w.value symbol) value slot
  | .setField field value => w.assignment callable e field (w.field field) value slot
  | .when origin branches => w.whenExpr callable e origin branches slot
  | .getClass argument => w.compound callable .getClass e [argument] slot
  | .typeOperator operator operand argument =>
    w.typeOperation callable e operator operand argument slot
  | .vararg elements => w.vararg callable e elements slot
  | .getObjectValue id => w.objectValue callable e id slot
  | .unsupported description => complainAt (.unrecognisedExpression description) e.span

end Walk

end IrFacts
