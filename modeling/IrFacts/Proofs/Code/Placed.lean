import IrFacts.Proofs.Code.Constructs

/-!
# Every expression has its place

Where every node is supported, no expression is lost: the items of a node hold
each of its subexpressions once, and the rows that are written of an expression
are the rows of its nodes and of what carries them, each once and under the row
of the node that it belongs to.
-/

set_option autoImplicit false

namespace IrFacts

/-! ## Items and subexpressions -/

mutual

/-- The expressions in an item, in the order of their places. -/
def Item.exprs : Item → List Expr
  | .part _ _ e => [e]
  | .row _ _ items => Item.exprsOf items

def Item.exprsOf : List Item → List Expr
  | [] => []
  | i :: items => i.exprs ++ Item.exprsOf items

end

def VarargElement.value : VarargElement → Expr
  | .expr e => e
  | .spread e => e

/-- The expressions right in a node, and the initializers of its variables. -/
def ExprKind.subexpressions (p : Program) : ExprKind → List Expr
  | .vararg elements => elements.map (·.value)
  | kind => kind.parts p

/-- The node has a row, its elements are single expressions, and it declares no
class. -/
structure ExprKind.Supported (p : Program) (kind : ExprKind) : Prop where
  recognised : ∀ description, kind ≠ .unsupported description
  operator : ∀ operator operand argument, kind = .typeOperator operator operand argument →
    operator.exprKind? ≠ none
  elements : ∀ elements, kind = .vararg elements → ∀ e, .spread e ∉ elements
  statements : ∀ s ∈ kind.statements, s.isLocalClass p = false

namespace Item

theorem exprsOf_append (as bs : List Item) : exprsOf (as ++ bs) = exprsOf as ++ exprsOf bs := by
  induction as with
  | nil => rfl
  | cons i as ih => simp [exprsOf, ih]

theorem exprsOf_parts (isStatement : Bool) (index : Int) (es : List Expr) :
    exprsOf (es.map (.part isStatement index)) = es := by
  induction es with
  | nil => rfl
  | cons e es ih => simp [exprsOf, exprs, ih]

/-- The expressions at positions, whatever the positions are. -/
theorem exprsOf_zipIdx {α : Type} {items : α × Nat → List Item} {f : α → List Expr}
    (h : ∀ a i, exprsOf (items (a, i)) = f a) (as : List α) (k : Nat) :
    exprsOf ((as.zipIdx k).flatMap items) = as.flatMap f := by
  induction as generalizing k with
  | nil => rfl
  | cons a as ih => simp [exprsOf_append, h, ih]

theorem exprsOf_zipIdx_map {α : Type} {item : α × Nat → Item} {f : α → List Expr}
    (h : ∀ a i, (item (a, i)).exprs = f a) (as : List α) :
    exprsOf (as.zipIdx.map item) = as.flatMap f := by
  rw [List.map_eq_flatMap]
  exact exprsOf_zipIdx (fun a i => by simp [exprsOf, h]) as 0

theorem exprsOf_variable (p : Program) (id : DeclId) (index : Int) :
    exprsOf (p.variableItems id index) = p.initializer id := by
  unfold Program.variableItems Program.initializer
  cases p.kind? id with
  | none => rfl
  | some kind => cases kind <;> simp [exprsOf, exprs, exprsOf_parts]

theorem exprsOf_catches (p : Program) (catches : List Catch) :
    exprsOf (catches.zipIdx.map fun (c, k) =>
      .row (.stmt .catchClause) (k : Int) (c.items p)) =
        catches.flatMap fun c => p.initializer c.parameter ++ [c.result] :=
  exprsOf_zipIdx_map (fun c i => by
    simp [exprs, Catch.items, exprsOf_append, exprsOf_variable, exprsOf]) catches

theorem exprsOf_receiver (p : Program) (symbol : DeclId) :
    exprsOf (p.receiverItems symbol) = [] := by
  unfold Program.receiverItems
  split
  · split
    · split <;> rfl
    · rfl
  · rfl

end Item

namespace Call

open Item

variable (call : Call)

theorem exprsOf_receiverItems (index : Int) :
    exprsOf (call.receiverItems index) = call.dispatchReceiver.toList := exprsOf_parts ..

theorem exprsOf_argumentItems : exprsOf call.argumentItems = call.valueArguments.filterMap id := by
  rw [argumentItems, exprsOf_zipIdx (f := Option.toList) fun a i => exprsOf_parts ..]
  induction call.valueArguments with
  | nil => rfl
  | cons a as ih => cases a <;> simp [ih]

theorem exprsOf_typeItems : exprsOf call.typeItems = [] := by
  rw [typeItems, exprsOf_zipIdx_map (f := fun _ => []) fun _ _ => rfl]
  simp

theorem exprsOf_classItems : exprsOf call.classItems = [] := by
  unfold classItems
  split
  · rfl
  · simp only [exprsOf, exprs]
    rw [exprsOf_zipIdx_map (f := fun _ => []) fun _ _ => rfl]
    simp

theorem exprsOf_constructorItems : (exprsOf call.constructorItems).Perm (Walk.operands call) := by
  simp only [constructorItems, exprsOf_append, exprsOf_argumentItems, exprsOf_receiverItems,
    exprsOf_classItems, List.append_nil, Walk.operands]
  exact List.perm_append_comm

end Call

namespace ExprKind

open Item

theorem exprsOf_items (p : Program) (kind : ExprKind) :
    (exprsOf (kind.items p)).Perm (kind.parts p) := by
  cases kind with
  | call c =>
    simp only [items, parts]
    split
    · next hoperator =>
      rw [Walk.operands_of_operator? hoperator]
      exact .refl _
    · simp [exprsOf_append, Call.exprsOf_typeItems, Call.exprsOf_receiverItems,
        Call.exprsOf_argumentItems, Walk.operands]
  | constructorCall c => exact c.exprsOf_constructorItems
  | enumConstructorCall c => exact c.exprsOf_constructorItems
  | delegatingConstructorCall c =>
    simp only [items, parts, exprsOf_append, Call.exprsOf_receiverItems,
      Call.exprsOf_argumentItems, Walk.operands]
    exact List.perm_append_comm
  | tryExpr result catches finish =>
    simp [items, parts, exprsOf, exprs, exprsOf_append, exprsOf_parts, exprsOf_catches]
  | block statements =>
    refine .of_eq (exprsOf_zipIdx (fun s i => ?_) statements 0)
    cases s <;> simp [Statement.items, Statement.parts, exprsOf, exprs, exprsOf_variable]
  | whileLoop loop => simp [items, Loop.items, parts, exprsOf, exprs, exprsOf_parts]
  | doWhileLoop loop => simp [items, Loop.items, parts, exprsOf, exprs, exprsOf_parts]
  | stringConcatenation arguments =>
    refine .of_eq ((exprsOf_zipIdx_map (f := fun e => [e]) (fun _ _ => rfl) arguments).trans ?_)
    simp [parts]
  | getValue symbol => simp [items, parts, exprsOf_receiver]
  | «when» origin branches =>
    refine .of_eq (exprsOf_zipIdx_map (fun b i => ?_) branches)
    simp [exprs, Branch.items, exprsOf]
  | typeOperator operator operand argument =>
    simp only [items, parts, TypeOperator.items]
    split <;> simp [exprsOf, exprs]
  | vararg elements =>
    refine .of_eq (exprsOf_zipIdx (fun a i => ?_) elements 0)
    cases a <;> simp [VarargElement.items, VarargElement.parts, exprsOf, exprs]
  | _ => simp [items, parts, exprsOf, exprs]

variable {p : Program} {kind : ExprKind}

theorem Supported.parts_eq (h : kind.Supported p) : kind.parts p = kind.subexpressions p := by
  cases kind with
  | vararg elements =>
    have hspread := h.elements elements rfl
    simp only [parts, subexpressions, List.map_eq_flatMap]
    refine List.flatMap_congr fun a ha => ?_
    cases a with
    | expr e => rfl
    | spread e => exact absurd ha (hspread e)
  | _ => rfl

theorem Supported.row (h : kind.Supported p) (f : DeclId) :
    ∃ row, kind.row? p (some f) = some row := by
  cases kind with
  | typeOperator operator operand argument =>
    obtain ⟨row, hrow⟩ := Option.ne_none_iff_exists'.mp (h.operator operator operand argument rfl)
    exact ⟨.expr row, by simp [row?, hrow]⟩
  | unsupported description => exact absurd rfl (h.recognised description)
  | _ => exact ⟨_, rfl⟩

end ExprKind

/-! ## Placed rows -/

/-- The rows are those of the items under a row, and of all that stands under
them in turn: one row of its own kind for every expression, under at most one
row that fits it to its slot and one for the label of a loop. -/
inductive Placed (p : Program) (current : DeclId) : Label → List Item → List Row → Prop
  | nil (parent : Label) : Placed p current parent [] []
  | row {parent id : Label} {kind : RowKind} {index : Int} {items rest : List Item}
      {rows more : List Row} : Placed p current id items rows → Placed p current parent rest more →
      Placed p current parent (.row kind index items :: rest)
        (⟨kind, id, parent, index⟩ :: (rows ++ more))
  | part {parent id last : Label} {kind : RowKind} {isStatement : Bool} {index lastIndex : Int}
      {e : Expr} {rest : List Item} {around rows more : List Row} :
      e.kind.row? p (some current) = some kind →
      Nested (e.kind.wrappers isStatement kind) parent index around last lastIndex →
      Placed p current id (e.kind.items p) rows → Placed p current parent rest more →
      Placed p current parent (.part isStatement index e :: rest)
        (around ++ ⟨kind, id, last, lastIndex⟩ :: (rows ++ more))

namespace Cue

theorem rows_row (r : Row) (cues : List Cue) : rows (.row r :: cues) = r :: rows cues := rfl

theorem rows_map_row (rows : List Row) : Cue.rows (rows.map .row) = rows := by
  induction rows with
  | nil => rfl
  | cons r rows ih => exact congrArg (r :: ·) ih

theorem rows_around (kind : ExprKind) (id : Label) (cues : List Cue) :
    rows (kind.around id cues) = rows cues := by
  have hjump : rows (kind.jump?.toList.map fun jump => .jump id jump.loopId) = [] := by
    cases kind.jump? <;> rfl
  have hopened : rows (kind.loop?.toList.map fun loop => .opened loop.id id) = [] := by
    cases kind.loop? <;> rfl
  have hclosed : rows (kind.loop?.toList.map fun loop => .closed loop.id) = [] := by
    cases kind.loop? <;> rfl
  simp only [ExprKind.around, rows_append, hjump, hopened, hclosed, List.nil_append,
    List.append_nil]

end Cue

theorem Laid.placed {p : Program} {f : DeclId} {loops : Loops} {parent : Label}
    {items : List Item} {cues : List Cue} {leaps : List (Label × Option Label)}
    (h : Laid p (some f) loops parent items cues leaps)
    (hsupported : ∀ e ∈ Item.exprsOf items, ∀ other, e.Reaches p other → other.kind.Supported p) :
    Placed p f parent items (Cue.rows cues) := by
  induction h with
  | nil loops parent => exact .nil parent
  | row _ _ hitems hrest =>
    simp only [Item.exprsOf, Item.exprs, List.forall_mem_append] at hsupported
    rw [Cue.rows_row, Cue.rows_append]
    exact .row (hitems hsupported.1) (hrest hsupported.2)
  | @part loops parent id last kind isStatement index lastIndex e rows rest cues more leaps others
      hkind hnested _ _ hitems hrest =>
    simp only [Item.exprsOf, Item.exprs, List.forall_mem_append, List.forall_mem_singleton]
      at hsupported
    rw [Cue.rows_append, Cue.rows_map_row, Cue.rows_row, Cue.rows_append, Cue.rows_around]
    refine .part hkind hnested (hitems fun part hpart other hreaches => ?_) (hrest hsupported.2)
    exact hsupported.1 other (.part ((e.kind.exprsOf_items p).subset hpart) hreaches)
  | @skip loops parent isStatement index e rest more others hkind _ _ =>
    obtain ⟨row, hrow⟩ := (hsupported e (by simp [Item.exprsOf, Item.exprs]) e (.refl e)).row f
    exact absurd (hkind.symm.trans hrow) nofun

namespace Walk

open Extract

variable {p : Program}

end Walk

end IrFacts
