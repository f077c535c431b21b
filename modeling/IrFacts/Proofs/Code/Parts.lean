import IrFacts.Extraction.Code

/-!
# What code is made of

The parts of an expression are the expressions in it and the initializers of its
variables. It reaches its parts, their parts and so on, and the members that are
read on the way.
-/

set_option autoImplicit false

namespace IrFacts

/-! ## Parts -/

/-- The initializer that the declaration of a variable is written with. -/
def Program.initializer (p : Program) (id : DeclId) : List Expr :=
  match p.kind? id with
  | some (.variable v) => v.initializer.toList
  | _ => []

def Statement.parts (p : Program) : Statement → List Expr
  | .expr e => [e]
  | .variable id => p.initializer id
  | .declaration _ => []

def Statement.isLocalClass (p : Program) : Statement → Bool
  | .declaration id => p.isClass id
  | _ => false

def VarargElement.parts : VarargElement → List Expr
  | .expr e => [e]
  | .spread _ => []

namespace ExprKind

/-- The expressions in an expression, and the initializers of its variables. -/
def parts (p : Program) : ExprKind → List Expr
  | .call c => Walk.operands c
  | .constructorCall c => Walk.operands c
  | .enumConstructorCall c => Walk.operands c
  | .delegatingConstructorCall c => Walk.operands c
  | .throwExpr value => [value]
  | .returnExpr value => [value]
  | .tryExpr result catches finish =>
    result :: catches.flatMap (fun c => p.initializer c.parameter ++ [c.result]) ++ finish.toList
  | .block statements => statements.flatMap (·.parts p)
  | .whileLoop loop => loop.condition :: loop.body.toList
  | .doWhileLoop loop => loop.condition :: loop.body.toList
  | .stringConcatenation arguments => arguments
  | .setValue _ value => [value]
  | .setField _ value => [value]
  | .when _ branches => branches.flatMap fun b => [b.condition, b.result]
  | .getClass argument => [argument]
  | .typeOperator _ _ argument => [argument]
  | .vararg elements => elements.flatMap (·.parts)
  | _ => []

def statements : ExprKind → List Statement
  | .block statements => statements
  | _ => []

end ExprKind

namespace Walk

theorem mem_operands {call : Call} {e : Expr}
    (h : call.dispatchReceiver = some e ∨ some e ∈ call.valueArguments) : e ∈ operands call := by
  rcases h with h | h
  · simp [operands, h]
  · exact List.mem_append_right _ (List.mem_filterMap.mpr ⟨some e, h, rfl⟩)

theorem operands_of_operator? {call : Call} {kind : Trap.ExprKind} {left right : Expr}
    (h : operator? call = some (kind, left, right)) : operands call = [left, right] := by
  unfold operator? at h
  obtain ⟨origin, -, h⟩ := Option.bind_eq_some_iff.mp h
  obtain ⟨kind', -, h⟩ := Option.bind_eq_some_iff.mp h
  split at h
  · next hoperands =>
    cases h
    exact hoperands
  · cases h

end Walk

/-- The expressions in an expression, those in its parts, and so on. -/
inductive Expr.Reaches (p : Program) : Expr → Expr → Prop
  | refl (e : Expr) : e.Reaches p e
  | part {e part other : Expr} : part ∈ e.kind.parts p → part.Reaches p other → e.Reaches p other

/-! ## Members that are read -/

/-- The field or the enum entry that an expression reads. -/
def ExprKind.read? : ExprKind → Option DeclId
  | .getField field => some field
  | .getEnumValue entry => some entry
  | _ => none

/-- Every member that is read in the expression is declared. -/
def Expr.ReadsDeclared (p : Program) (e : Expr) : Prop :=
  ∀ other, e.Reaches p other → ∀ id, other.kind.read? = some id → (p.decl? id).isSome

theorem Expr.ReadsDeclared.parts {p : Program} {e : Expr} {kind : ExprKind}
    (h : e.ReadsDeclared p) (hkind : e.kind = kind) :
    ∀ part ∈ kind.parts p, part.ReadsDeclared p :=
  fun _ hpart other ho => h other (.part (hkind ▸ hpart) ho)

namespace DeclKind

/-- The statements and the expressions that stand in a declaration. -/
def code (p : Program) : DeclKind → List Expr
  | .function f => (f.body.toList.flatMap (·.statements)).flatMap (·.parts p)
  | .field f => f.initializer.toList
  | .initializer i => i.statements.flatMap (·.parts p)
  | .variable v => v.initializer.toList
  | _ => []

end DeclKind

/-- Every member that is read anywhere in the program is declared. -/
def Program.ReadsDeclared (p : Program) : Prop :=
  ∀ id d, p.decl? id = some d → ∀ e ∈ d.kind.code p, e.ReadsDeclared p

end IrFacts
