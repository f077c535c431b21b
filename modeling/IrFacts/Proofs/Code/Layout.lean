import IrFacts.Extraction.Code
import IrFacts.Proofs.Code.RowTree

/-!
# Where the rows of an expression belong

An expression has a row of a kind of its own, unless it is not supported, and
under this row its parts stand at indexes that tell their roles. Between a row
and a part there may be a row that carries it: the branch of a `when`, the
clause of a `catch`, the declaration of a variable. All this is said here of
expressions alone. Which rows, loops and jumps a session meets when it writes
an expression is a list of cues, and `Laid` says when the cues are those that
the expression should have.
-/

set_option autoImplicit false

namespace IrFacts

/-! ## Rows and cues -/

inductive RowKind where
  | expr (kind : Trap.ExprKind)
  | stmt (kind : Trap.StmtKind)
  | branch
deriving DecidableEq, Repr

def RowKind.isStatement : RowKind → Bool
  | .stmt _ => true
  | _ => false

structure Row where
  kind : RowKind
  id : Label
  parent : Label
  index : Int
deriving DecidableEq, Repr

/-- What a session meets when it writes code. -/
inductive Cue where
  | row (r : Row)
  /-- The loop with this row is open from here on. -/
  | opened (id : LoopId) (loop : Label)
  | closed (id : LoopId)
  /-- The statement jumps to a loop. -/
  | jump (stmt : Label) (id : LoopId)

abbrev Loops : Type := List (LoopId × Label)

namespace Cue

def row? : Cue → Option Row
  | .row r => some r
  | _ => none

def rows (cues : List Cue) : List Row := cues.filterMap row?

def onLoops : Cue → Loops → Loops
  | .opened id loop, loops => (id, loop) :: loops.filter (·.1 ≠ id)
  | .closed id, loops => loops.filter (·.1 ≠ id)
  | _, loops => loops

def loopsAfter : List Cue → Loops → Loops
  | [], loops => loops
  | c :: cues, loops => loopsAfter cues (c.onLoops loops)

def jump? : Cue → Loops → Option (Label × Option Label)
  | .jump stmt id, loops => some (stmt, loops.lookup id)
  | _, _ => none

/-- The jumps, each with the row of the loop that is open for it, if there is one. -/
def jumps : List Cue → Loops → List (Label × Option Label)
  | [], _ => []
  | c :: cues, loops => (c.jump? loops).toList ++ jumps cues (c.onLoops loops)

theorem rows_append (as bs : List Cue) : rows (as ++ bs) = rows as ++ rows bs :=
  List.filterMap_append

theorem loopsAfter_append (as bs : List Cue) (loops : Loops) :
    loopsAfter (as ++ bs) loops = loopsAfter bs (loopsAfter as loops) := by
  induction as generalizing loops with
  | nil => rfl
  | cons c as ih => exact ih _

theorem jumps_append (as bs : List Cue) (loops : Loops) :
    jumps (as ++ bs) loops = jumps as loops ++ jumps bs (loopsAfter as loops) := by
  induction as generalizing loops with
  | nil => rfl
  | cons c as ih => simp [jumps, loopsAfter, ih]

end Cue

/-! ## What belongs to an expression -/

/-- What stands under a row at an index: a part in a slot of its kind, or a row
that carries others. -/
inductive Item where
  | part (isStatement : Bool) (index : Int) (e : Expr)
  | row (kind : RowKind) (index : Int) (items : List Item)

namespace Program

/-- Whether the symbol is the receiver of a class or of a function. -/
def isReceiver (p : Program) (symbol : DeclId) : Bool :=
  match p.decl? symbol with
  | some ⟨_, _, _, .valueParameter v⟩ => v.index = -1
  | _ => false

/-- The class that `this` belongs to is named at the row of a receiver. -/
def receiverItems (p : Program) (symbol : DeclId) : List Item :=
  match p.decl? symbol with
  | some ⟨.decl owner, _, _, .valueParameter v⟩ =>
    match p.kind? owner with
    | some (.class c) =>
      if v.index = -1 ∧ c.thisReceiver = some symbol then [.row (.expr .typeAccess) 0 []] else []
    | _ => []
  | _ => []

/-- A variable is declared in a row of its own, with its initializer at 0. -/
def variableItems (p : Program) (id : DeclId) (index : Int) : List Item :=
  match p.kind? id with
  | some (.variable v) =>
    [.row (.expr .localVariableDecl) index (v.initializer.toList.map (.part false 0))]
  | _ => []

end Program

namespace Call

def receiverItems (call : Call) (index : Int) : List Item :=
  call.dispatchReceiver.toList.map (.part false index)

/-- A value argument stands at its position, and one that is left out leaves a gap. -/
def argumentItems (call : Call) : List Item :=
  call.valueArguments.zipIdx.flatMap fun (a, k) => a.toList.map (.part false (k : Int))

/-- Accesses to the type arguments, down from -2. -/
def typeItems (call : Call) : List Item :=
  call.typeArguments.zipIdx.map fun (_, k) => .row (.expr .typeAccess) (-2 - Int.ofNat k) []

/-- An access to the class that is constructed, with the type arguments under it. -/
def classItems (call : Call) : List Item :=
  if call.typeArguments.isEmpty then []
  else [.row (.expr .typeAccess) (-3)
    (call.typeArguments.zipIdx.map fun (_, k) => .row (.expr .typeAccess) (k : Int) [])]

/-- The items of a call that constructs an object. -/
def constructorItems (call : Call) : List Item :=
  call.argumentItems ++ (call.receiverItems (-2) ++ call.classItems)

end Call

namespace Statement

def items (p : Program) (index : Int) : Statement → List Item
  | .expr e => [.part true index e]
  | .variable id => [.row (.stmt .localVariableDecl) index (p.variableItems id 1)]
  | .declaration _ => []

end Statement

def Loop.items (loop : Loop) : List Item :=
  .part false 0 loop.condition :: loop.body.toList.map (.part true 1)

def Catch.items (p : Program) (c : Catch) : List Item :=
  p.variableItems c.parameter 0 ++ [.part true 1 c.result]

def Branch.items (b : Branch) : List Item := [.part false 0 b.condition, .part true 1 b.result]

def VarargElement.items (index : Int) : VarargElement → List Item
  | .expr e => [.part false index e]
  | .spread _ => []

namespace TypeOperator

/-- The type is at 0 and the operand at 1 in a cast, and the other way round in
a test of the type. -/
def items (operator : TypeOperator) (operand : Expr) : List Item :=
  if operator.exprKind? = some .cast then
    [.row (.expr .typeAccess) 0 [], .part false 1 operand]
  else [.row (.expr .typeAccess) 1 [], .part false 0 operand]

end TypeOperator

namespace ExprKind

/-- The kind of the row of an expression, where the current function matters to
calls of other constructors. An expression that is not supported has no row. -/
def row? (p : Program) (current : Option DeclId) : ExprKind → Option RowKind
  | .call c => some (.expr (((Walk.operator? c).map (·.1)).getD .methodAccess))
  | .constructorCall _ => some (.expr .newExpr)
  | .enumConstructorCall _ => some (.expr .newExpr)
  | .delegatingConstructorCall c =>
    current.map fun f => .stmt (Walk.delegationKind p f c.callee)
  | .instanceInitializerCall _ => some (.expr .methodAccess)
  | .throwExpr _ => some (.stmt .throwStmt)
  | .returnExpr _ => some (.stmt .returnStmt)
  | .breakExpr _ => some (.stmt .breakStmt)
  | .continueExpr _ => some (.stmt .continueStmt)
  | .tryExpr .. => some (.stmt .tryStmt)
  | .block _ => some (.stmt .block)
  | .whileLoop _ => some (.stmt .whileStmt)
  | .doWhileLoop _ => some (.stmt .doStmt)
  | .stringConcatenation _ => some (.expr .stringTemplate)
  | .const value => some (.expr value.literal.1)
  | .getValue symbol => some (.expr (if p.isReceiver symbol then .thisAccess else .varAccess))
  | .getField _ => some (.expr .varAccess)
  | .getEnumValue _ => some (.expr .varAccess)
  | .setValue .. => some (.expr .assign)
  | .setField .. => some (.expr .assign)
  | .when .. => some (.expr .when)
  | .getClass _ => some (.expr .getClass)
  | .typeOperator operator _ _ => operator.exprKind?.map .expr
  | .vararg _ => some (.expr .vararg)
  | .getObjectValue _ => some (.expr .varAccess)
  | .unsupported _ => none

/-- What stands under the row of an expression. -/
def items (p : Program) : ExprKind → List Item
  | .call c =>
    match Walk.operator? c with
    | some (_, left, right) => [.part false 0 left, .part false 1 right]
    | none => c.typeItems ++ (c.receiverItems (-1) ++ c.argumentItems)
  | .constructorCall c => c.constructorItems
  | .enumConstructorCall c => c.constructorItems
  | .delegatingConstructorCall c => c.argumentItems ++ c.receiverItems (-1)
  | .throwExpr value => [.part false 0 value]
  | .returnExpr value => [.part false 0 value]
  | .tryExpr result catches finish =>
    .part true (-1) result ::
      (catches.zipIdx.map (fun (c, k) => .row (.stmt .catchClause) (k : Int) (c.items p)) ++
        finish.toList.map (.part true (-2)))
  | .block statements => statements.zipIdx.flatMap fun (s, k) => s.items p (k : Int)
  | .whileLoop loop => loop.items
  | .doWhileLoop loop => loop.items
  | .stringConcatenation arguments => arguments.zipIdx.map fun (a, k) => .part false (k : Int) a
  | .getValue symbol => p.receiverItems symbol
  | .setValue _ value => [.row (.expr .varAccess) 0 [], .part false 1 value]
  | .setField _ value => [.row (.expr .varAccess) 0 [], .part false 1 value]
  | .when _ branches => branches.zipIdx.map fun (b, k) => .row .branch (k : Int) b.items
  | .getClass argument => [.part false 0 argument]
  | .typeOperator operator _ argument => operator.items argument
  | .vararg elements => elements.zipIdx.flatMap fun (a, k) => a.items (k : Int)
  | _ => []

def loop? : ExprKind → Option Loop
  | .whileLoop loop => some loop
  | .doWhileLoop loop => some loop
  | _ => none

def jump? : ExprKind → Option Jump
  | .breakExpr jump => some jump
  | .continueExpr jump => some jump
  | _ => none

/-- The rows around the row of an expression: one if the slot is of another
kind, and one for the label of a loop in the source. -/
def wrappers (kind : ExprKind) (isStatement : Bool) (row : RowKind) : List RowKind :=
  (if row.isStatement = isStatement then []
    else if isStatement then [.stmt .exprStmt] else [.expr .stmtExpr]) ++
  (kind.loop?.bind (·.label)).toList.map fun _ => .stmt .labeled

/-- What is met besides rows when the row `id` has been written, with the cues of what
stands under it. -/
def around (kind : ExprKind) (id : Label) (cues : List Cue) : List Cue :=
  kind.jump?.toList.map (fun jump => .jump id jump.loopId) ++
    (kind.loop?.toList.map (fun loop => .opened loop.id id) ++
      (cues ++ kind.loop?.toList.map fun loop => .closed loop.id))

/-- The loops around what stands under the row `id`. -/
def scope (kind : ExprKind) (id : Label) (loops : Loops) : Loops :=
  kind.loop?.toList.map (fun loop => (loop.id, id)) ++ loops

/-- Where the expression itself jumps, among the loops around it. -/
def leaps (kind : ExprKind) (id : Label) (loops : Loops) : List (Label × Option Label) :=
  kind.jump?.toList.map fun jump => (id, loops.lookup jump.loopId)

theorem around_of_plain {kind : ExprKind} (hl : kind.loop? = none) (hj : kind.jump? = none)
    (id : Label) (cues : List Cue) : kind.around id cues = cues := by
  simp [around, hl, hj]

end ExprKind

/-! ## The layout -/

/-- Rows that stand one under the other, each at 0 but the first. -/
inductive Nested : List RowKind → Label → Int → List Row → Label → Int → Prop
  | nil (parent : Label) (index : Int) : Nested [] parent index [] parent index
  | cons {kind : RowKind} {kinds : List RowKind} {id parent last : Label} {index lastIndex : Int}
      {rows : List Row} : Nested kinds id 0 rows last lastIndex →
      Nested (kind :: kinds) parent index (⟨kind, id, parent, index⟩ :: rows) last lastIndex

/-- The cues are those of the items under a row, and of all that stands under
them in turn. The last list tells of every jump among the items which of the
loops around it is its target. -/
inductive Laid (p : Program) (current : Option DeclId) :
    Loops → Label → List Item → List Cue → List (Label × Option Label) → Prop
  | nil (loops : Loops) (parent : Label) : Laid p current loops parent [] [] []
  | row {loops : Loops} {parent id : Label} {kind : RowKind} {index : Int}
      {items rest : List Item} {cues more : List Cue} {leaps others : List (Label × Option Label)} :
      Laid p current loops id items cues leaps → Laid p current loops parent rest more others →
      Laid p current loops parent (.row kind index items :: rest)
        (.row ⟨kind, id, parent, index⟩ :: (cues ++ more)) (leaps ++ others)
  | part {loops : Loops} {parent id last : Label} {kind : RowKind} {isStatement : Bool}
      {index lastIndex : Int} {e : Expr} {rows : List Row} {rest : List Item}
      {cues more : List Cue} {leaps others : List (Label × Option Label)} :
      e.kind.row? p current = some kind →
      Nested (e.kind.wrappers isStatement kind) parent index rows last lastIndex →
      Laid p current (e.kind.scope id loops) id (e.kind.items p) cues leaps →
      Laid p current loops parent rest more others →
      Laid p current loops parent (.part isStatement index e :: rest)
        (rows.map .row ++ .row ⟨kind, id, last, lastIndex⟩ :: (e.kind.around id cues ++ more))
        (e.kind.leaps id loops ++ (leaps ++ others))
  | skip {loops : Loops} {parent : Label} {isStatement : Bool} {index : Int} {e : Expr}
      {rest : List Item} {more : List Cue} {others : List (Label × Option Label)} :
      e.kind.row? p current = none → Laid p current loops parent rest more others →
      Laid p current loops parent (.part isStatement index e :: rest) more others

variable {p : Program} {current : Option DeclId} {loops : Loops} {parent : Label}

theorem Nested.append {kinds others : List RowKind} {last end' : Label}
    {index lastIndex endIndex : Int} {rows more : List Row}
    (h : Nested kinds parent index rows last lastIndex)
    (k : Nested others last lastIndex more end' endIndex) :
    Nested (kinds ++ others) parent index (rows ++ more) end' endIndex := by
  induction h with
  | nil => exact k
  | cons _ ih => exact .cons (ih k)

theorem Laid.append {items rest : List Item} {cues more : List Cue}
    {leaps others : List (Label × Option Label)}
    (h : Laid p current loops parent items cues leaps)
    (k : Laid p current loops parent rest more others) :
    Laid p current loops parent (items ++ rest) (cues ++ more) (leaps ++ others) := by
  induction h with
  | nil => exact k
  | row hitems _ _ ih =>
    simp only [List.cons_append, List.append_assoc]
    exact .row hitems (ih k)
  | part hrow hnested hitems _ _ ih =>
    simp only [List.cons_append, List.append_assoc]
    exact .part hrow hnested hitems (ih k)
  | skip hrow _ ih => exact .skip hrow (ih k)

end IrFacts
