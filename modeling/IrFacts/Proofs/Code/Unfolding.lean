import IrFacts.Proofs.Run.Initializations

/-!
# What a walk comes to

A walk goes from a file to its declarations, from a class to its members, from
a function to its code, and from code to the classes that are local to it. What
it comes to can be told of the program alone: the declarations that are reached,
the rows they are owed, the type parameters that get declared, and the types
that are written on the way. All that is left open in one step of the walk are
expressions and class bodies, and the walk unfolds when each of them comes to an
end.
-/

set_option autoImplicit false

namespace IrFacts

/-- Where a walk is: whether inside of a function, and the type parameters in scope. -/
structure Context where
  inside : Bool
  scope : List DeclId

inductive Mark where
  | reach (id : DeclId)
  /-- A row of a relation that declarations have their rows in. -/
  | row (relation : String)
  | declare (typeParameter : DeclId)
  /-- A type that is written here, with these type parameters in scope. -/
  | mention (scope : List DeclId) (type : IrType)
  /-- A type that is written elsewhere. -/
  | borrow (type : IrType)

inductive WalkItem where
  | mark (m : Mark)
  | expression (c : Context) (e : Expr)
  | classBody (c : Context) (id : DeclId)

namespace Context

variable (c : Context)

def mentions (types : List IrType) : List WalkItem := types.map fun t => .mark (.mention c.scope t)

def expressions (es : List Expr) : List WalkItem := es.map (.expression c)

def within (typeParameters : List DeclId) : Context :=
  { c with scope := typeParameters ++ c.scope }

end Context

def rowItem (relation : String) : WalkItem := .mark (.row relation)

namespace Program

variable (p : Program) (c : Context)

/-! ## Code -/

def bindingItems (id : DeclId) : List WalkItem :=
  match p.decl? id with
  | some ⟨_, _, _, .variable v⟩ => c.mentions [v.type] ++ c.expressions v.initializer.toList
  | _ => []

def statementItems : Statement → List WalkItem
  | .expr e => c.expressions [e]
  | .variable id => p.bindingItems c id
  | .declaration id =>
    match p.decl? id with
    | some ⟨_, _, _, .class _⟩ => [.classBody c id]
    | _ => []

def dispatchItems (call : Call) : List WalkItem := c.expressions call.dispatchReceiver.toList

def argumentItems (call : Call) : List WalkItem := c.expressions (call.valueArguments.filterMap id)

def callItems (call : Call) : List WalkItem :=
  match Walk.operator? call with
  | some (_, left, right) => c.expressions [left, right]
  | none => c.mentions call.typeArguments ++ (dispatchItems c call ++ argumentItems c call)

def constructorItems (e : Expr) (call : Call) : List WalkItem :=
  argumentItems c call ++ (dispatchItems c call ++
    if call.typeArguments.isEmpty then [] else c.mentions (e.type :: call.typeArguments))

def catchItems (clause : Catch) : List WalkItem :=
  p.bindingItems c clause.parameter ++ c.expressions [clause.result]

def elementItems : VarargElement → List WalkItem
  | .expr e => c.expressions [e]
  | .spread _ => []

/-- What stands in an expression, besides its type. A delegating call is taken up
only inside of a function, and an operator of a kind that is not known not at all. -/
def partItems (e : Expr) : List WalkItem :=
  match e.kind with
  | .call call => callItems c call
  | .constructorCall call => constructorItems c e call
  | .enumConstructorCall call => constructorItems c e call
  | .delegatingConstructorCall call =>
    if c.inside then argumentItems c call ++ dispatchItems c call else []
  | .instanceInitializerCall _ => []
  | .throwExpr value => c.expressions [value]
  | .returnExpr value => c.expressions [value]
  | .breakExpr _ => []
  | .continueExpr _ => []
  | .tryExpr result catches finish =>
    c.expressions [result] ++ (catches.flatMap (p.catchItems c) ++ c.expressions finish.toList)
  | .block statements => statements.flatMap (p.statementItems c)
  | .whileLoop loop => c.expressions (loop.condition :: loop.body.toList)
  | .doWhileLoop loop => c.expressions (loop.condition :: loop.body.toList)
  | .stringConcatenation parts => c.expressions parts
  | .const _ => []
  | .getValue _ => c.mentions [e.type]
  | .getField _ => []
  | .getEnumValue _ => []
  | .setValue symbol value =>
    .mark (.borrow (Projection.valueType p symbol)) :: c.expressions [value]
  | .setField field value => .mark (.borrow (Projection.valueType p field)) :: c.expressions [value]
  | .when _ branches => branches.flatMap fun b => c.expressions [b.condition, b.result]
  | .getClass argument => c.expressions [argument]
  | .typeOperator operator operand argument =>
    match operator.exprKind? with
    | none => []
    | some _ => c.mentions [operand] ++ c.expressions [argument]
  | .vararg elements => elements.flatMap (elementItems c)
  | .getObjectValue _ => []
  | .unsupported _ => []

def expressionItems (e : Expr) : List WalkItem := c.mentions [e.type] ++ p.partItems c e

/-! ## Declarations -/

def typeParameterItems (id : DeclId) : List WalkItem :=
  match p.decl? id, p.typeParameter? id with
  | some _, some _ => [.mark (.declare id)]
  | _, _ => []

def parameterItems (id : DeclId) : List WalkItem :=
  match p.decl? id with
  | some ⟨_, _, _, .valueParameter v⟩ => c.mentions [v.type] ++ [rowItem "params"]
  | _ => []

/-- A constructor is written under its class, whose type is not projected as it stands. -/
def callableItems (f : FunctionDecl) : List WalkItem :=
  if f.isConstructor then [rowItem "constrs"]
  else c.mentions [f.returnType] ++ ([rowItem "methods"] ++
    c.mentions (f.extensionReceiver.toList.map (Projection.valueType p)))

def bodyItems (f : FunctionDecl) : List WalkItem :=
  match f.body with
  | some b => b.statements.flatMap (p.statementItems c)
  | none => []

def functionItems (id : DeclId) : List WalkItem :=
  match p.decl? id, p.function? id with
  | some _, some f =>
    let c' := { c.within f.typeParameters with inside := true }
    .mark (.reach id) :: (f.typeParameters.flatMap p.typeParameterItems ++
      (p.callableItems c' f ++ (p.bodyItems c' f ++
        f.valueParameters.flatMap (p.parameterItems c'))))
  | _, _ => []

def fieldItems (id : DeclId) : List WalkItem :=
  match p.decl? id, p.field? id with
  | some _, some f => .mark (.reach id) :: (c.mentions [f.type] ++ [rowItem "fields"])
  | _, _ => []

def propertyItems (id : DeclId) : List WalkItem :=
  match p.decl? id with
  | some ⟨_, _, _, .property v⟩ =>
    .mark (.reach id) :: ([rowItem "ktProperties"] ++
      (v.getter.toList.flatMap (p.functionItems c) ++
        (v.setter.toList.flatMap (p.functionItems c) ++
          v.backingField.toList.flatMap (p.fieldItems c))))
  | _ => []

def enumEntryItems (id : DeclId) : List WalkItem :=
  match p.decl? id with
  | none => []
  | some d => .mark (.reach id) :: if (Walk.enumClass? p d).isSome then [rowItem "fields"] else []

def typeAliasItems (id : DeclId) : List WalkItem :=
  match p.decl? id with
  | some ⟨_, _, _, .typeAlias a⟩ =>
    .mark (.reach id) :: (c.mentions [a.expandedType] ++ [rowItem "kt_type_alias"])
  | _ => []

/-- A declaration that a file or a class lists. -/
def memberItems (id : DeclId) : List WalkItem :=
  match p.kind? id with
  | none => []
  | some (.class _) => [.classBody c id]
  | some (.function _) => p.functionItems c id
  | some (.property _) => p.propertyItems c id
  | some (.enumEntry _) => p.enumEntryItems id
  | some (.typeAlias _) => p.typeAliasItems c id
  | some (.field _) => p.fieldItems c id
  | some _ => [.mark (.reach id)]

def initializationItems : Walk.Initialization → List WalkItem
  | .statement s => p.statementItems c s
  | .field _ f value _ => c.mentions [value.type] ++ (c.mentions [f.type] ++ c.expressions [value])

/-- The initialization of instances, which classes from outside do not have. -/
def obinitItems (id : DeclId) (k : ClassDecl) : List WalkItem :=
  if p.isExternal id then []
  else rowItem "methods" :: (Walk.initializations p k).flatMap (p.initializationItems c)

def companionItems (id : DeclId) (k : ClassDecl) : List WalkItem :=
  if (p.parentClass? id).isSome && k.isCompanion then [rowItem "fields"] else []

def objectItems (k : ClassDecl) : List WalkItem :=
  if k.isNonCompanionObject then [rowItem "fields"] else []

def classItems (id : DeclId) : List WalkItem :=
  match p.decl? id, p.class? id with
  | some _, some k =>
    let c' := c.within k.typeParameters
    .mark (.reach id) :: (p.companionItems id k ++
      (k.typeParameters.flatMap p.typeParameterItems ++ (k.members.flatMap (p.memberItems c') ++
        (p.obinitItems c' id k ++ (objectItems k ++ c'.mentions k.superTypes)))))
  | _, _ => []

def fileItems (file : FileId) : List WalkItem :=
  match p.file? file with
  | some entry => entry.declarations.flatMap (p.memberItems c)
  | none => []

end Program

/-! ## Unfolding -/

/-- The walk over the items comes to an end, and passes these marks. -/
inductive Unfolds (p : Program) : List WalkItem → List Mark → Prop
  | nil : Unfolds p [] []
  | mark {m : Mark} {rest : List WalkItem} {ms : List Mark} :
      Unfolds p rest ms → Unfolds p (.mark m :: rest) (m :: ms)
  | expression {c : Context} {e : Expr} {rest : List WalkItem} {ms : List Mark} :
      Unfolds p (p.expressionItems c e ++ rest) ms → Unfolds p (.expression c e :: rest) ms
  | classBody {c : Context} {id : DeclId} {rest : List WalkItem} {ms : List Mark} :
      Unfolds p (p.classItems c id ++ rest) ms → Unfolds p (.classBody c id :: rest) ms

def Program.unfold (p : Program) : Nat → List WalkItem → Option (List Mark)
  | _, [] => some []
  | 0, _ :: _ => none
  | fuel + 1, .mark m :: rest => (p.unfold fuel rest).map (m :: ·)
  | fuel + 1, .expression c e :: rest => p.unfold fuel (p.expressionItems c e ++ rest)
  | fuel + 1, .classBody c id :: rest => p.unfold fuel (p.classItems c id ++ rest)

namespace Unfolds

variable {p : Program} {items others : List WalkItem} {ms ns : List Mark}

theorem append (h : Unfolds p items ms) (k : Unfolds p others ns) :
    Unfolds p (items ++ others) (ms ++ ns) := by
  induction h with
  | nil => exact k
  | mark _ ih => exact .mark ih
  | expression _ ih =>
    rw [List.append_assoc] at ih
    exact .expression ih
  | classBody _ ih =>
    rw [List.append_assoc] at ih
    exact .classBody ih

theorem unique (h : Unfolds p items ms) (k : Unfolds p items ns) : ms = ns := by
  induction h generalizing ns with
  | nil =>
    cases k
    rfl
  | mark _ ih =>
    cases k with
    | mark hrest => rw [ih hrest]
  | expression _ ih =>
    cases k with
    | expression hrest => exact ih hrest
  | classBody _ ih =>
    cases k with
    | classBody hrest => exact ih hrest

theorem of_unfold {fuel : Nat} (h : p.unfold fuel items = some ms) : Unfolds p items ms := by
  induction fuel generalizing items ms with
  | zero =>
    cases items with
    | nil =>
      cases h
      exact .nil
    | cons i rest => cases h
  | succ fuel ih =>
    cases items with
    | nil =>
      cases h
      exact .nil
    | cons i rest =>
      cases i with
      | mark m =>
        obtain ⟨ns, hns, rfl⟩ := Option.map_eq_some_iff.mp h
        exact .mark (ih hns)
      | expression c e => exact .expression (ih h)
      | classBody c id => exact .classBody (ih h)

theorem of_expression {c : Context} {e : Expr} (h : Unfolds p (p.expressionItems c e) ms) :
    Unfolds p [.expression c e] ms := .expression (by rwa [List.append_nil])

theorem of_classBody {c : Context} {id : DeclId} (h : Unfolds p (p.classItems c id) ms) :
    Unfolds p [.classBody c id] ms := .classBody (by rwa [List.append_nil])

end Unfolds

end IrFacts
