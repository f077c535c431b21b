import IrFacts.Proofs.Run.AskedProjection
import IrFacts.Proofs.Run.Reading

/-!
# Code in a reading

Code passes what is written in it: the types, the variables, and the parts of
each node in the order in which they are extracted. A local class passes the
whole of its body.
-/

set_option autoImplicit false

namespace IrFacts

namespace Context

variable (c : Context)

theorem mentions_flatMap (types : List IrType) :
    types.flatMap (fun type => c.mentions [type]) = c.mentions types := List.map_eq_flatMap.symm

theorem expressions_cons (e : Expr) (es : List Expr) :
    c.expressions (e :: es) = [.expression c e] ++ c.expressions es := rfl

theorem expressions_flatMap (es : List Expr) :
    es.flatMap (fun e => [.expression c e]) = c.expressions es := List.map_eq_flatMap.symm

theorem expressions_filterMap (es : List (Option Expr)) :
    es.flatMap (fun e => c.expressions e.toList) = c.expressions (es.filterMap id) := by
  induction es with
  | nil => rfl
  | cons e es ih =>
    cases e with
    | none => exact ih
    | some e => exact congrArg (WalkItem.expression c e :: ·) ih

end Context

namespace Reading

open Extract

variable {p : Program} {ρ : Reading p} {x : ρ.World} {c : Context} {α : Type}

/-- The operations that a walk needs of itself pass what they stand for. -/
structure Treads (ρ : Reading p) (w : Walk) : Prop extends ρ.Follows w.toProjection where
  expression : ∀ {c : Context} {x}, ρ.Inside c.inside x → ∀ callable slot e,
    ρ.Says x (w.expression callable slot e) [.expression c e] Any
  classDeclaration : ∀ {c : Context} {x}, ρ.Inside c.inside x → ∀ id,
    ρ.Says x (w.classDeclaration id) [.classBody c id] Any

variable {w : Walk} {callable : Label}

/-! ## Rows -/

/-- The row of a node that is no access to a type. -/
theorem says_nodeRow (hw : ρ.Treads w) (c : Context) {kind : Trap.ExprKind}
    (hkind : kind ≠ .typeAccess) (e : Expr) (slot : Slot) :
    ρ.Says x (w.nodeRow callable kind e slot) (c.mentions [e.type]) fun id y => ρ.Drawn kind id y :=
  hw.exprRow (.span e.span) (hw.mention c _ _) fun h => absurd h hkind

/-- An access to a type that is not the argument of a call. -/
theorem says_typeAccess (hw : ρ.Treads w) (c : Context) {above : Trap.ExprKind} {type : IrType}
    {span : Span} {parent : Label} {index : Int} (hparent : ρ.Drawn above parent x)
    (habove : ¬above.TakesTypes) :
    ρ.Says x (w.exprRow callable .typeAccess type span parent index) (c.mentions [type])
      fun id y => ρ.Drawn .typeAccess id y :=
  hw.exprRow (.span span) (hw.mention c _ _) fun _ => ⟨above, hparent, habove⟩

theorem says_stmtRow (kind : Trap.StmtKind) (span : Span) (slot : Slot) :
    ρ.Says x (Walk.stmtRow callable kind span slot) [] ρ.Told :=
  quiet_bind (ρ.says_fresh x) fun _ _ _ hid => quiet_bind (ρ.says_write (by decide)) fun _ _ h₁ _ =>
    quiet_bind (says_locate _ (ρ.told_later hid h₁)) fun _ _ h₂ _ =>
      ρ.says_pure (ρ.told_later (ρ.told_later hid h₁) h₂)

theorem says_asExpression (e : Expr) (slot : Slot) :
    ρ.Says x (Walk.asExpression callable e slot) [] Any :=
  says_ite (fun _ => quiet_bind (says_stmtRow _ _ _) fun _ _ _ _ => ρ.says_pure trivial)
    fun _ => ρ.says_pure trivial

theorem says_asStatement (hw : ρ.Treads w) (c : Context) (e : Expr) (slot : Slot) :
    ρ.Says x (w.asStatement callable e slot) (c.mentions [e.type]) Any :=
  says_ite
    (fun _ => (ρ.says_pure trivial).mentions.of_eq (List.append_nil (c.mentions [e.type])))
    fun _ => bind_quiet (says_nodeRow hw c (by decide) _ _) fun _ _ _ _ => ρ.says_pure trivial

theorem says_expressionSlot (hw : ρ.Treads w) (hc : ρ.Inside c.inside x) (parent : Label)
    (index : Int) (e : Expr) :
    ρ.Says x (w.expressionSlot callable parent index e) (c.expressions [e]) Any :=
  hw.expression hc _ _ _

theorem says_statementSlot (hw : ρ.Treads w) (hc : ρ.Inside c.inside x) (parent : Label)
    (index : Int) (e : Expr) :
    ρ.Says x (w.statementSlot callable parent index e) (c.expressions [e]) Any :=
  hw.expression hc _ _ _

/-! ## Variables and statements -/

theorem variableItems_of_variable {id : DeclId} {parent : DeclParent} {origin span}
    {v : VariableDecl} (h : p.decl? id = some ⟨parent, origin, span, .variable v⟩) :
    p.bindingItems c id = c.mentions [v.type] ++ c.expressions v.initializer.toList := by
  rw [Program.bindingItems, h]

theorem says_variableExpr (hw : ρ.Treads w) (hc : ρ.Inside c.inside x) (id : DeclId)
    (parent : Label) (index : Int) :
    ρ.Says x (w.variableExpr callable id parent index) (p.bindingItems c id) Any := by
  refine ρ.says_read ?_
  split
  · next v hv =>
    rw [variableItems_of_variable hv]
    refine quiet_bind (ρ.says_localVariable x id) fun l _ h₁ hl => ?_
    refine hw.variableRow (hw.mention c _ _) hl fun row y h₂ _ => ?_
    split
    · next e he =>
      rw [he]
      exact says_expressionSlot hw (by grind) _ _ _
    · next hnone =>
      rw [hnone]
      exact ρ.says_pure trivial
  · next hnot =>
    refine Says.of_eq (ρ.says_complain (by simp)) ?_
    unfold Program.bindingItems
    split
    · next hx => exact (hnot _ _ _ _ hx).elim
    · rfl

theorem says_variableStatement (hw : ρ.Treads w) (hc : ρ.Inside c.inside x) (id : DeclId)
    (slot : Slot) : ρ.Says x (w.variableStatement callable id slot) (p.bindingItems c id) Any :=
  ρ.says_read <| quiet_bind (says_stmtRow _ _ _) fun _ _ h _ =>
    says_variableExpr hw (ρ.inside_later hc h) _ _ _

theorem says_localDeclaration (hw : ρ.Treads w) (hc : ρ.Inside c.inside x) (id : DeclId)
    (slot : Slot) : ρ.Says x (w.localDeclaration callable id slot)
      (p.statementItems c (.declaration id)) Any := by
  refine ρ.says_read ?_
  split
  · next hnone =>
    rw [Program.statementItems, hnone]
    exact ρ.says_complain (by simp)
  · next hclass =>
    rw [Program.statementItems, hclass]
    refine quiet_bind (says_stmtRow _ _ _) fun _ _ h _ => ?_
    exact bind_quiet (hw.classDeclaration (ρ.inside_later hc h) id) fun _ _ _ _ =>
      ρ.says_pure trivial
  · next d hnot hd =>
    refine Says.of_eq (ρ.says_complainAt (by simp)) ?_
    rw [Program.statementItems, hd]
    split
    · next hclass => exact (hnot _ _ _ _ (Option.some.inj hclass)).elim
    · rfl

theorem says_statement (hw : ρ.Treads w) (hc : ρ.Inside c.inside x) (parent : Label)
    (index : Int) (code : Statement) :
    ρ.Says x (w.statement callable parent index code) (p.statementItems c code) Any := by
  cases code with
  | expr e => exact says_statementSlot hw hc _ _ _
  | «variable» id => exact says_variableStatement hw hc _ _
  | declaration id => exact says_localDeclaration hw hc _ _

theorem says_statements (hw : ρ.Treads w) (hc : ρ.Inside c.inside x) (block : Label)
    (first : Nat) (statements : List Statement) :
    ρ.Says x (w.statements callable block first statements)
      (statements.flatMap (p.statementItems c)) Any :=
  says_zipIdx fun _ _ _ _ h => says_statement hw (ρ.inside_later hc h) _ _ _

/-! ## Calls -/

theorem says_valueArguments (hw : ρ.Treads w) (hc : ρ.Inside c.inside x) (call : Call)
    (id : Label) :
    ρ.Says x (w.valueArguments callable call id) (Program.argumentItems c call) Any := by
  have hall : ρ.Says x (w.valueArguments callable call id)
      (call.valueArguments.flatMap fun argument => c.expressions argument.toList) Any := by
    refine says_zipIdx ?_
    intro argument _ index y h
    cases argument with
    | some e => exact says_expressionSlot hw (ρ.inside_later hc h) _ _ _
    | none => exact ρ.says_pure trivial
  exact hall.of_eq (c.expressions_filterMap _)

theorem says_receiver (hw : ρ.Treads w) (hc : ρ.Inside c.inside x) (call : Call) (id : Label)
    (index : Int) :
    ρ.Says x (w.receiver callable call id index) (Program.dispatchItems c call) Any := by
  unfold Walk.receiver Program.dispatchItems
  split
  · next e he =>
    rw [he]
    exact says_expressionSlot hw hc _ _ _
  · next hnone =>
    rw [hnone]
    exact ρ.says_pure trivial

theorem says_binding (hw : ρ.Treads w) (id : Label) (callee : DeclId) {f : Extract α}
    {items : List WalkItem} {Q : α → ρ.World → Prop}
    (hf : ∀ y, ρ.Later x y → ρ.Says y f items Q) :
    ρ.Says x (do
      write (.callableBinding id (← w.function callee))
      f) items Q :=
  quiet_bind (hw.function callee x) fun _ _ h₁ _ =>
    quiet_bind (ρ.says_write (by decide)) fun _ y h₂ _ => hf y (ρ.later_trans h₁ h₂)

theorem says_methodCall (hw : ρ.Treads w) (hc : ρ.Inside c.inside x) (e : Expr) (call : Call)
    (slot : Slot) : ρ.Says x (w.methodCall callable e call slot)
      (c.mentions [e.type] ++ (c.mentions call.typeArguments ++
        (Program.dispatchItems c call ++ Program.argumentItems c call))) Any := by
  refine ρ.says_bind (says_nodeRow hw c (by decide) _ _) fun id _ h₁ hid =>
    says_binding hw _ _ fun y h₂ => ?_
  refine ρ.says_bind (Says.of_eq (says_zipIdx fun type _ index z hz => ?_)
    (c.mentions_flatMap _)) fun _ _ h₃ _ => ?_
  · exact hw.methodArgument (hw.mention c type _) (by grind)
  refine ρ.says_bind (says_receiver hw (by grind) _ _ _) fun _ _ h₄ _ => ?_
  exact says_valueArguments hw (by grind) _ _

theorem operator_ne_typeAccess {call : Call} {kind : Trap.ExprKind} {left right : Expr}
    (h : Walk.operator? call = some (kind, left, right)) : kind ≠ .typeAccess := by
  obtain ⟨origin, -, h⟩ := Option.bind_eq_some_iff.mp h
  obtain ⟨kind', hkind, h⟩ := Option.bind_eq_some_iff.mp h
  split at h
  · cases h
    cases origin <;> cases hkind <;> decide
  · cases h

theorem says_call (hw : ρ.Treads w) (hc : ρ.Inside c.inside x) (e : Expr) (call : Call)
    (slot : Slot) : ρ.Says x (w.call callable e call slot)
      (c.mentions [e.type] ++ Program.callItems c call) Any := by
  refine quiet_bind (says_asExpression _ _) fun slot _ h₁ _ => ?_
  split
  · next kind left right hoperator =>
    rw [Program.callItems, hoperator]
    have hkind := operator_ne_typeAccess hoperator
    refine ρ.says_bind (says_nodeRow hw c hkind _ _) fun _ _ h₂ _ => ?_
    change ρ.Says _ _ (c.expressions [left] ++ c.expressions [right]) Any
    refine ρ.says_bind (says_expressionSlot hw (by grind) _ _ _) fun _ _ h₃ _ => ?_
    exact says_expressionSlot hw (by grind) _ _ _
  · next hnone =>
    rw [Program.callItems, hnone]
    exact says_methodCall hw (ρ.inside_later hc h₁) _ _ _

theorem says_constructorCall (hw : ρ.Treads w) (hc : ρ.Inside c.inside x) (e : Expr)
    (call : Call) (slot : Slot) : ρ.Says x (w.constructorCall callable e call slot)
      (c.mentions [e.type] ++ Program.constructorItems c e call) Any := by
  refine quiet_bind (says_asExpression _ _) fun slot _ h₁ _ => ?_
  refine ρ.says_bind (says_nodeRow hw c (by decide) _ _) fun id _ h₂ hid =>
    says_binding hw _ _ fun y h₃ => ?_
  refine ρ.says_bind (says_valueArguments hw (by grind) _ _) fun _ _ h₄ _ => ?_
  refine ρ.says_bind (says_receiver hw (by grind) _ _ _) fun _ _ h₅ _ => ?_
  cases call.typeArguments.isEmpty with
  | true => exact ρ.says_pure trivial
  | false =>
    have hid₅ := ρ.drawn_later (ρ.drawn_later (ρ.drawn_later hid h₃) h₄) h₅
    refine ρ.says_bind (says_typeAccess hw c hid₅ nofun) fun access _ _ haccess => ?_
    refine Says.of_eq (says_zipIdx fun type _ index z h => ?_) (c.mentions_flatMap _)
    exact bind_quiet (hw.mention c type _ _) fun _ _ h' _ =>
      ρ.says_typeArgument (ρ.drawn_later (ρ.drawn_later haccess h) h')

theorem says_delegatingCall (hw : ρ.Treads w) (hc : ρ.Inside c.inside x) (e : Expr)
    (call : Call) (slot : Slot) : ρ.Says x (w.delegatingCall callable e call slot)
      (c.mentions [e.type] ++
        if c.inside then Program.argumentItems c call ++ Program.dispatchItems c call else [])
      Any := by
  refine ρ.says_get (fun s t h => by rw [h.currentFunction]) fun s _ hs => ?_
  have hitems (hcounts : ρ.Counts) : c.mentions [e.type] ++
      (if s.currentFunction.isSome then
        Program.argumentItems c call ++ Program.dispatchItems c call else []) =
      c.mentions [e.type] ++
        if c.inside then Program.argumentItems c call ++ Program.dispatchItems c call else [] := by
    rw [hs hcounts _ hc]
  refine ρ.says_convert hitems ?_
  cases s.currentFunction with
  | none => exact Says.mentions (ρ.says_complainAt (by simp))
  | some current =>
    refine ρ.says_bind (says_asStatement hw c _ _) fun slot _ h₁ _ => ρ.says_read ?_
    refine quiet_bind (says_stmtRow _ _ _) fun stmt _ h₂ _ => says_binding hw _ _ fun t h₃ => ?_
    refine ρ.says_bind (says_valueArguments hw (by grind) _ _) fun _ _ h₄ _ => ?_
    exact says_receiver hw (by grind) _ _ _

/-- What initializes the instances of a class has a label of its own. -/
theorem says_obinit (hw : ρ.Treads w) (id : DeclId) (unit : IrType) {f : Label → Extract α}
    {items : List WalkItem} {Q : α → ρ.World → Prop}
    (hf : ∀ l y, ρ.Later x y → ρ.Told l y → ρ.Says y (f l) items Q) : ρ.Says x (do
      let key ← w.callableKey (.decl id) "<obinit>" [] unit
      f (← labelFor key)) items Q :=
  have hkey := ρ.says_and (hw.obinitKey id unit x) fun _ _ _ he => callableKey_start he
  quiet_bind hkey fun _ _ h₁ ⟨hstart, _⟩ =>
    quiet_bind (ρ.says_callableLabel hstart) fun l y h₂ hl => hf l y (ρ.later_trans h₁ h₂) hl

theorem says_initializerCall (hw : ρ.Treads w) (c : Context) (e : Expr) (id : DeclId)
    (slot : Slot) : ρ.Says x (w.initializerCall callable e id slot) (c.mentions [e.type]) Any := by
  refine quiet_bind (says_asExpression _ _) fun slot _ _ _ => ?_
  refine bind_quiet (says_nodeRow hw c (by decide) _ _) fun row _ _ _ => ρ.says_read ?_
  exact says_obinit hw _ _ fun _ _ _ _ => ρ.says_write (by decide)

/-! ## Control flow -/

theorem says_simpleStatement (hw : ρ.Treads w) (hc : ρ.Inside c.inside x) (kind : Trap.StmtKind)
    (e value : Expr) (slot : Slot) : ρ.Says x (w.simpleStatement callable kind e value slot)
      (c.mentions [e.type] ++ c.expressions [value]) Any :=
  ρ.says_bind (says_asStatement hw c _ _) fun _ _ h₁ _ =>
    quiet_bind (says_stmtRow _ _ _) fun _ _ h₂ _ =>
      says_expressionSlot hw (ρ.inside_later (ρ.inside_later hc h₁) h₂) _ _ _

theorem says_jumpTarget (kind : Trap.StmtKind) (e : Expr) (jump : Jump) (stmt : Label) :
    ρ.Says x (do
      match (← get).openLoops.lookup jump.loopId with
      | some loop => write (.ktBreakContinueTargets stmt loop)
      | none => complainAt (.jumpTarget kind.name) e.span) [] Any := by
  refine ρ.says_get (fun s t h => by rw [h.openLoops]) fun s _ _ => ?_
  split
  · exact ρ.says_write (by decide)
  · exact ρ.says_complainAt (by simp)

theorem says_jump (hw : ρ.Treads w) (c : Context) (kind : Trap.StmtKind) (e : Expr)
    (jump : Jump) (slot : Slot) :
    ρ.Says x (w.jump callable kind e jump slot) (c.mentions [e.type]) Any := by
  refine bind_quiet (says_asStatement hw c _ _) fun slot _ _ _ => ?_
  refine quiet_bind (says_stmtRow _ _ _) fun stmt t _ _ => ?_
  dsimp only
  split
  · exact quiet_bind (ρ.says_write (by decide)) fun _ _ _ _ => says_jumpTarget _ _ _ _
  · exact says_jumpTarget _ _ _ _

theorem says_loopSlot (e : Expr) (loop : Loop) (slot : Slot) :
    ρ.Says x (Walk.loopSlot callable e loop slot) [] Any := by
  unfold Walk.loopSlot
  split
  · exact quiet_bind (says_stmtRow _ _ _) fun _ _ _ _ =>
      quiet_bind (ρ.says_write (by decide)) fun _ _ _ _ => ρ.says_pure trivial
  · exact ρ.says_pure trivial

theorem says_loop (hw : ρ.Treads w) (hc : ρ.Inside c.inside x) (kind : Trap.StmtKind) (e : Expr)
    (loop : Loop) (slot : Slot) : ρ.Says x (w.loop callable kind e loop slot)
      (c.mentions [e.type] ++ c.expressions (loop.condition :: loop.body.toList)) Any := by
  refine ρ.says_bind (says_asStatement hw c _ _) fun slot _ h₁ _ => ?_
  refine quiet_bind (says_loopSlot _ _ _) fun slot _ h₂ _ => ?_
  refine quiet_bind (says_stmtRow _ _ _) fun stmt _ h₃ hstmt => ?_
  refine quiet_bind (ρ.says_openLoop loop.id hstmt) fun _ _ h₄ _ => ?_
  rw [Context.expressions_cons]
  refine ρ.says_bind (says_expressionSlot hw (by grind) _ _ _) fun _ _ h₅ _ => ?_
  dsimp only
  split
  · next body hbody =>
    rw [hbody]
    exact bind_quiet (says_statementSlot hw (by grind) _ _ _) fun _ _ _ _ => ρ.says_closeLoop _ _
  · next hnone =>
    rw [hnone]
    exact ρ.says_closeLoop _ _

theorem says_catchClause (hw : ρ.Treads w) (hc : ρ.Inside c.inside x) (stmt : Label)
    (index : Nat) (clause : Catch) :
    ρ.Says x (w.catchClause callable stmt index clause) (p.catchItems c clause) Any := by
  refine quiet_bind (says_stmtRow _ _ _) fun _ _ h₁ _ => ?_
  refine ρ.says_bind (says_variableExpr hw (ρ.inside_later hc h₁) _ _ _) fun _ _ h₂ _ => ?_
  exact says_statementSlot hw (by grind) _ _ _

theorem says_tryStatement (hw : ρ.Treads w) (hc : ρ.Inside c.inside x) (e result : Expr)
    (catches : List Catch) (finish : Option Expr) (slot : Slot) :
    ρ.Says x (w.tryStatement callable e result catches finish slot)
      (c.mentions [e.type] ++ (c.expressions [result] ++
        (catches.flatMap (p.catchItems c) ++ c.expressions finish.toList))) Any := by
  refine ρ.says_bind (says_asStatement hw c _ _) fun slot _ h₁ _ => ?_
  refine quiet_bind (says_stmtRow _ _ _) fun stmt _ h₂ _ => ?_
  refine ρ.says_bind (says_statementSlot hw (by grind) _ _ _) fun _ _ h₃ _ => ?_
  refine ρ.says_bind (says_zipIdx fun clause _ index y h =>
    says_catchClause hw (by grind) stmt index clause) fun _ _ h₄ _ => ?_
  split
  · exact says_statementSlot hw (by grind) _ _ _
  · exact ρ.says_pure trivial

theorem says_branch (hw : ρ.Treads w) (hc : ρ.Inside c.inside x) (id : Label) (index : Nat)
    (b : Branch) :
    ρ.Says x (w.branch callable id index b) (c.expressions [b.condition, b.result]) Any := by
  refine quiet_bind (ρ.says_fresh x) fun row _ h₁ hrow => ?_
  refine quiet_bind (ρ.says_write (by decide)) fun _ _ h₂ _ => ?_
  refine quiet_bind (says_locate _ (ρ.told_later hrow h₂)) fun _ _ h₃ _ => ?_
  rw [Context.expressions_cons]
  refine ρ.says_bind (says_expressionSlot hw (by grind) _ _ _) fun _ _ h₄ _ => ?_
  refine bind_quiet (says_statementSlot hw (by grind) _ _ _) fun _ _ _ _ => ?_
  exact quiet_when fun _ => ρ.says_write (by decide)

theorem says_whenExpr (hw : ρ.Treads w) (hc : ρ.Inside c.inside x) (e : Expr)
    (origin : Option StatementOrigin) (branches : List Branch) (slot : Slot) :
    ρ.Says x (w.whenExpr callable e origin branches slot) (c.mentions [e.type] ++
      branches.flatMap fun b => c.expressions [b.condition, b.result]) Any := by
  refine quiet_bind (says_asExpression _ _) fun _ _ h₁ _ => ?_
  refine ρ.says_bind (says_nodeRow hw c (by decide) _ _) fun id _ h₂ _ => ?_
  refine quiet_when_bind (fun _ => ρ.says_write (by decide)) fun _ h₃ => ?_
  exact says_zipIdx fun b _ index y h => says_branch hw (by grind) _ _ b

/-! ## Values -/

theorem says_constant (hw : ρ.Treads w) (c : Context) (e : Expr) (value : ConstValue)
    (slot : Slot) : ρ.Says x (w.constant callable e value slot) (c.mentions [e.type]) Any := by
  have hkind : value.literal.1 ≠ .typeAccess := by cases value <;> simp [ConstValue.literal]
  refine quiet_bind (says_asExpression _ _) fun slot _ _ _ => ?_
  refine bind_quiet (says_nodeRow hw c hkind _ _) fun id _ _ _ => ?_
  split
  · exact ρ.says_write (by decide)
  · exact ρ.says_pure trivial

theorem says_thisQualifier (hw : ρ.Treads w) (c : Context) (e : Expr) (symbol owner : DeclId)
    {id : Label} (hid : ρ.Drawn .thisAccess id x) :
    ρ.Says x (w.thisQualifier callable e symbol owner id) (c.mentions [e.type]) Any := by
  have unwritten {m : Extract Unit} (h : ρ.Says x m [] Any) :
      ρ.Says x m (c.mentions [e.type]) Any := h.mentions.of_eq (List.append_nil _)
  refine ρ.says_read ?_
  split
  · refine says_ite (fun _ => ?_) fun _ => unwritten (ρ.says_complainAt (by simp))
    exact bind_quiet (says_typeAccess hw c hid nofun) fun _ _ _ _ => ρ.says_pure trivial
  · exact unwritten (quiet_when fun _ => ρ.says_complainAt (by simp))
  · exact unwritten (ρ.says_pure trivial)

theorem says_access (hw : ρ.Treads w) (c : Context) (e : Expr) {target : Extract Label}
    (slot : Slot) (ht : ∀ y, ρ.Says y target [] ρ.Told) : ρ.Says x (do
      let id ← w.nodeRow callable .varAccess e slot
      write (.variableBinding id (← target))) (c.mentions [e.type]) Any :=
  bind_quiet (says_nodeRow hw c (by decide) _ _) fun _ _ _ _ =>
    quiet_bind (ht _) fun _ _ _ _ => ρ.says_write (by decide)

theorem says_readMember (hw : ρ.Treads w) (c : Context) (e : Expr) {target : Extract Label}
    (slot : Slot) (ht : ∀ y, ρ.Says y target [] ρ.Told) :
    ρ.Says x (w.readMember callable e target slot) (c.mentions [e.type]) Any :=
  quiet_bind (says_asExpression _ _) fun _ _ _ _ => says_access hw c _ _ ht

theorem says_readValue (hw : ρ.Treads w) (c : Context) (e : Expr) (symbol : DeclId)
    (slot : Slot) : ρ.Says x (w.readValue callable e symbol slot)
      (c.mentions [e.type] ++ c.mentions [e.type]) Any := by
  have access {slot : Slot} (y : ρ.World) : ρ.Says y (do
      let id ← w.nodeRow callable .varAccess e slot
      write (.variableBinding id (← w.value symbol))) (c.mentions [e.type] ++ c.mentions [e.type])
      Any := (says_access hw c e slot (hw.value symbol)).mentions
  refine quiet_bind (says_asExpression _ _) fun slot _ _ _ => ρ.says_read ?_
  split
  · refine says_ite (fun _ => ρ.says_bind (says_nodeRow hw c (by decide) _ _) fun id _ _ hid => ?_)
      fun _ => access _
    split
    · exact says_thisQualifier hw c _ _ _ hid
    · exact (ρ.says_pure trivial).mentions.of_eq (List.append_nil (c.mentions [e.type]))
  · exact access _

theorem says_assignment (hw : ρ.Treads w) (hc : ρ.Inside c.inside x) (e : Expr) (id : DeclId)
    {target : Extract Label} (value : Expr) (slot : Slot)
    (ht : ∀ y, ρ.Says y target [] ρ.Told) :
    ρ.Says x (w.assignment callable e id target value slot) (c.mentions [e.type] ++
      (.mark (.borrow (Projection.valueType p id)) :: c.expressions [value])) Any := by
  refine quiet_bind (says_asExpression _ _) fun _ _ h₁ _ => ?_
  refine quiet_bind (ht _) fun _ _ h₂ _ => ?_
  refine ρ.says_bind (says_nodeRow hw c (by decide) _ _) fun _ _ h₃ _ => ρ.says_read ?_
  change ρ.Says _ _ ([.mark (.borrow (Projection.valueType p id))] ++ c.expressions [value]) Any
  refine ρ.says_bind (hw.exprRow (.span e.span) (hw.borrow _ _) nofun) fun _ _ h₄ _ => ?_
  refine quiet_bind (ρ.says_write (by decide)) fun _ _ h₅ _ => ?_
  exact says_expressionSlot hw (by grind) _ _ _

theorem says_typeOperation (hw : ρ.Treads w) (hc : ρ.Inside c.inside x) (e : Expr)
    (operator : TypeOperator) (operand : IrType) (argument : Expr) (slot : Slot) :
    ρ.Says x (w.typeOperation callable e operator operand argument slot)
      (c.mentions [e.type] ++ match operator.exprKind? with
        | none => []
        | some _ => c.mentions [operand] ++ c.expressions [argument]) Any := by
  unfold Walk.typeOperation
  cases hoperator : operator.exprKind? with
  | none => exact Says.mentions (ρ.says_complainAt (by simp))
  | some kind =>
    have hkind : ¬kind.TakesTypes := by
      cases operator <;> cases hoperator <;> nofun
    refine quiet_bind (says_asExpression _ _) fun _ _ h₁ _ => ?_
    refine ρ.says_bind (says_nodeRow hw c (fun h => hkind (.inr h)) _ _) fun _ _ h₂ hid => ?_
    refine ρ.says_bind (says_typeAccess hw c hid hkind) fun _ _ h₃ _ => ?_
    exact says_expressionSlot hw (by grind) _ _ _

theorem says_objectValue (hw : ρ.Treads w) (c : Context) (e : Expr) (id : DeclId) (slot : Slot) :
    ρ.Says x (w.objectValue callable e id slot) (c.mentions [e.type]) Any := by
  refine quiet_bind (says_asExpression _ _) fun slot _ _ _ => ?_
  refine bind_quiet (says_nodeRow hw c (by decide) _ _) fun row _ _ _ => ρ.says_read ?_
  split
  · exact ρ.says_complainAt (by simp)
  · refine says_ite (fun _ => ?_) fun _ => ?_
    · refine quiet_bind (hw.companionField? id _) fun found _ _ _ => ?_
      split
      · exact ρ.says_write (by decide)
      · exact ρ.says_pure trivial
    · exact quiet_bind (hw.objectField id _) fun _ _ _ _ => ρ.says_write (by decide)

/-! ## The step of an expression -/

theorem says_block (hw : ρ.Treads w) (hc : ρ.Inside c.inside x) (e : Expr)
    (statements : List Statement) (slot : Slot) :
    ρ.Says x (w.block callable e statements slot)
      (c.mentions [e.type] ++ statements.flatMap (p.statementItems c)) Any :=
  ρ.says_bind (says_asStatement hw c _ _) fun _ _ h₁ _ =>
    quiet_bind (says_stmtRow _ _ _) fun _ _ h₂ _ =>
      says_statements hw (ρ.inside_later (ρ.inside_later hc h₁) h₂) _ _ _

theorem says_compound (hw : ρ.Treads w) (hc : ρ.Inside c.inside x) {kind : Trap.ExprKind}
    (hkind : kind ≠ .typeAccess) (e : Expr) (parts : List Expr) (slot : Slot) :
    ρ.Says x (w.compound callable kind e parts slot)
      (c.mentions [e.type] ++ c.expressions parts) Any := by
  refine quiet_bind (says_asExpression _ _) fun _ _ h₁ _ => ?_
  refine ρ.says_bind (says_nodeRow hw c hkind _ _) fun _ _ h₂ _ => ?_
  refine Says.of_eq (says_zipIdx fun part _ index y h => ?_) (c.expressions_flatMap parts)
  exact says_expressionSlot hw (by grind) _ _ part

theorem says_vararg (hw : ρ.Treads w) (hc : ρ.Inside c.inside x) (e : Expr)
    (elements : List VarargElement) (slot : Slot) : ρ.Says x (w.vararg callable e elements slot)
      (c.mentions [e.type] ++ elements.flatMap (Program.elementItems c)) Any := by
  refine quiet_bind (says_asExpression _ _) fun _ _ h₁ _ => ?_
  refine ρ.says_bind (says_nodeRow hw c (by decide) _ _) fun _ _ h₂ _ => ?_
  refine says_zipIdx fun element _ index y h => ?_
  cases element with
  | expr e => exact says_expressionSlot hw (by grind) _ _ _
  | spread e => exact ρ.says_complainAt (by simp)

theorem says_expressionStep (hw : ρ.Treads w) (hc : ρ.Inside c.inside x) (slot : Slot) (e : Expr) :
    ρ.Says x (w.expressionStep callable slot e) (p.expressionItems c e) Any := by
  have plain {m : Extract Unit} (h : ρ.Says x m (c.mentions [e.type]) Any) :
      ρ.Says x m (c.mentions [e.type] ++ []) Any := h.of_eq (List.append_nil _).symm
  unfold Walk.expressionStep Program.expressionItems Program.partItems
  cases he : e.kind with
  | call call => exact says_call hw hc _ _ _
  | constructorCall call => exact says_constructorCall hw hc _ _ _
  | enumConstructorCall call => exact says_constructorCall hw hc _ _ _
  | delegatingConstructorCall call => exact says_delegatingCall hw hc _ _ _
  | instanceInitializerCall id => exact plain (says_initializerCall hw c _ _ _)
  | throwExpr value => exact says_simpleStatement hw hc _ _ _ _
  | returnExpr value => exact says_simpleStatement hw hc _ _ _ _
  | breakExpr jump => exact plain (says_jump hw c _ _ _ _)
  | continueExpr jump => exact plain (says_jump hw c _ _ _ _)
  | tryExpr result catches finish => exact says_tryStatement hw hc _ _ _ _ _
  | block statements => exact says_block hw hc _ _ _
  | whileLoop loop => exact says_loop hw hc _ _ _ _
  | doWhileLoop loop => exact says_loop hw hc _ _ _ _
  | stringConcatenation parts => exact says_compound hw hc (by decide) _ _ _
  | const value => exact plain (says_constant hw c _ _ _)
  | getValue symbol => exact says_readValue hw c _ _ _
  | getField field => exact plain (says_readMember hw c _ _ (hw.field field))
  | getEnumValue entry => exact plain (says_readMember hw c _ _ (hw.enumEntry entry))
  | setValue symbol value => exact says_assignment hw hc _ _ _ _ (hw.value symbol)
  | setField field value => exact says_assignment hw hc _ _ _ _ (hw.field field)
  | «when» origin branches => exact says_whenExpr hw hc _ _ _ _
  | getClass argument => exact says_compound hw hc (by decide) _ _ _
  | typeOperator operator operand argument => exact says_typeOperation hw hc _ _ _ _ _
  | vararg elements => exact says_vararg hw hc _ _ _
  | getObjectValue id => exact plain (says_objectValue hw c _ _ _)
  | unsupported description => exact Says.mentions (ρ.says_complainAt (by simp))

end Reading

end IrFacts
