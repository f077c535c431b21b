import IrFacts.Extraction.Code
import IrFacts.Proofs.Run.Members
import IrFacts.Proofs.Run.Seats

/-!
# Code keeps to a scope

A scope that may write code admits every statement and expression, when the
enclosing callable may be mentioned, but for the one row that stands in the slot.
That one it admits when the parent of the slot may be mentioned too. A member that
is read and not declared is the one thing that nothing is reported of.
-/

set_option autoImplicit false

namespace IrFacts

namespace Scope

open Extract

variable {σ : Scope} {p : Program} {s t : Session} {α β : Type} {e : Expr}

def WritesCode (σ : Scope) : Prop := ∀ r ∈ Trap.codeRelations, σ.relation r

theorem does_writeCode (hc : σ.WritesCode) {r : String} {args : List Trap.Arg}
    (hr : r ∈ Trap.codeRelations) (hl : σ.KnowsAll s args) :
    σ.Does p s (write ⟨r, args⟩) Any :=
  does_writeIn (hc r hr) hl

theorem seats_row (hc : σ.WritesCode) {slot : Slot} {f : Trap.Fact} (hf : slot.Holds f)
    (hl : σ.Knows s slot.parent → σ.KnowsAll s f.args) : σ.Seats p slot s (write f) Any :=
  seats_write hf fun hslot => ⟨hc _ hf.mem_codeRelations, hl hslot⟩

/-- Every member that is read in the expression is declared, or the placeholder is known
anyway. -/
def Reads (σ : Scope) (p : Program) (e : Expr) : Prop := σ.errors = 0 ∨ e.ReadsDeclared p

def ReadsAll (σ : Scope) (p : Program) (es : List Expr) : Prop := ∀ e ∈ es, σ.Reads p e

theorem Reads.parts (h : σ.Reads p e) {kind : ExprKind} (hkind : e.kind = kind) :
    σ.ReadsAll p (kind.parts p) :=
  fun part hpart => h.imp_right fun he => he.parts hkind part hpart

theorem Reads.declares (h : σ.Reads p e) {id : DeclId} (hread : e.kind.read? = some id) :
    σ.Declares p id :=
  h.imp_right fun he => he e (.refl e) id hread

theorem ReadsAll.of_subset {es fs : List Expr} (h : σ.ReadsAll p fs) (hes : es ⊆ fs) :
    σ.ReadsAll p es := fun e he => h e (hes he)

theorem Allows.code (h : σ.Allows p) {id : DeclId} {d : Declaration} (hd : p.decl? id = some d) :
    σ.ReadsAll p (d.kind.code p) :=
  fun e he => h.reads.imp_right fun hreads => hreads id d hd e he

/-- The operations that a walk needs of itself keep to the scope. -/
structure CoversWalk (σ : Scope) (p : Program) (w : Walk) : Prop
    extends σ.Covers p w.toProjection where
  expression : ∀ s callable slot e, σ.Knows s callable → σ.Knows s slot.parent → σ.Reads p e →
    σ.Does p s (w.expression callable slot e) Any
  classDeclaration : ∀ s id, σ.Does p s (w.classDeclaration id) fun l t => σ.Knows t l

variable {w : Walk} {callable : Label} {slot : Slot}

/-! ## Rows -/

theorem seats_writeExpr (hc : σ.WritesCode) {id type richType : Label} {kind : Trap.ExprKind}
    (hi : σ.Knows s id) (ht : σ.Knows s type) (hr : σ.Knows s richType) :
    σ.Seats p slot s (writeExpr id kind type richType slot.parent slot.index) Any :=
  seats_bind (seats_row hc (.expr id kind type) fun hslot => ⟨hi, ht, hslot, trivial⟩)
    fun _ _ hst _ => does_writeCode hc (by decide) ⟨hst.knows hi, hst.knows hr, trivial⟩

theorem does_writeExpr (hc : σ.WritesCode) {id type richType parent : Label}
    {kind : Trap.ExprKind} {index : Int} (hi : σ.Knows s id) (ht : σ.Knows s type)
    (hr : σ.Knows s richType) (hp : σ.Knows s parent) :
    σ.Does p s (writeExpr id kind type richType parent index) Any :=
  have h : σ.Seats p (.expression parent index) s _ _ := seats_writeExpr hc hi ht hr
  h.does hp

/-- If the type of the row is an error, it is reported. -/
theorem seats_exprRow (hc : σ.WritesCode) (hw : σ.CoversWalk p w) (hcall : σ.Knows s callable)
    {kind : Trap.ExprKind} {type : IrType} {span : Span} :
    σ.Seats p slot s (w.exprRow callable kind type span slot.parent slot.index) fun l t =>
      σ.Knows t l ∧ ∀ description, type = .error description → σ.errors ≤ t.counter.errors := by
  apply does_bind_seats does_fresh
  intro id t₁ h₁ hid
  apply does_bind_seats (does_type_reported hw.toCovers true type)
  intro views t₂ h₂ ⟨htype, herror⟩
  have hid₂ := h₂.knows hid
  refine seats_bind (seats_writeExpr hc hid₂ htype.1 htype.2) fun _ t₃ h₃ _ => ?_
  apply does_bind (does_locate _ (h₃.knows hid₂))
  intro _ t₄ h₄ _
  have hid₄ := h₄.knows (h₃.knows hid₂)
  have hcall₄ := h₄.knows (h₃.knows (h₂.knows (h₁.knows hcall)))
  refine does_bind (does_writeCode hc (by decide) ⟨hid₄, hcall₄, trivial⟩) fun _ t₅ h₅ _ => ?_
  refine does_pure ⟨h₅.knows hid₄, fun description hd => ?_⟩
  exact Nat.le_trans (herror description hd)
    (h₃.before.trans (h₄.before.trans h₅.before)).errors

theorem does_exprRow (hc : σ.WritesCode) (hw : σ.CoversWalk p w) (hcall : σ.Knows s callable)
    {parent : Label} (hparent : σ.Knows s parent) {kind : Trap.ExprKind} {type : IrType}
    {span : Span} {index : Int} :
    σ.Does p s (w.exprRow callable kind type span parent index) fun l t =>
      σ.Knows t l ∧ ∀ description, type = .error description → σ.errors ≤ t.counter.errors :=
  have h : σ.Seats p (.expression parent index) s _ _ := seats_exprRow hc hw hcall
  h.does hparent

theorem seats_nodeRow (hc : σ.WritesCode) (hw : σ.CoversWalk p w) (hcall : σ.Knows s callable)
    {kind : Trap.ExprKind} {e : Expr} :
    σ.Seats p slot s (w.nodeRow callable kind e slot) fun l t => σ.Knows t l :=
  (seats_exprRow hc hw hcall).imp fun _ _ _ hl => hl.1

theorem seats_stmtRow (hc : σ.WritesCode) (hcall : σ.Knows s callable) {kind : Trap.StmtKind}
    {span : Span} :
    σ.Seats p slot s (Walk.stmtRow callable kind span slot) fun l t => σ.Knows t l := by
  apply does_bind_seats does_fresh
  intro id t₁ h₁ hid
  refine seats_bind (seats_row hc (.stmt id kind callable) fun hslot =>
    ⟨hid, hslot, h₁.knows hcall, trivial⟩) fun _ t₂ h₂ _ => ?_
  apply does_bind (does_locate _ (h₂.knows hid))
  intro _ t₃ h₃ _
  exact does_pure (h₃.knows (h₂.knows hid))

theorem does_stmtRow (hc : σ.WritesCode) (hcall : σ.Knows s callable)
    (hslot : σ.Knows s slot.parent) {kind : Trap.StmtKind} {span : Span} :
    σ.Does p s (Walk.stmtRow callable kind span slot) fun l t => σ.Knows t l :=
  (seats_stmtRow hc hcall).does hslot

/-- A wrapped node stands under the wrapper, which may be mentioned, and any other in the
slot itself. -/
theorem seats_asExpression (hc : σ.WritesCode) (hcall : σ.Knows s callable) {e : Expr}
    {f : Slot → Extract β} {R : β → Session → Prop}
    (h : ∀ slot' t, σ.Seated p slot s t → σ.Seats p slot' t (f slot') R) :
    σ.Seats p slot s (Walk.asExpression callable e slot >>= f) R := by
  unfold Walk.asExpression
  split
  · rw [bind_assoc]
    refine seats_bind (seats_stmtRow hc hcall) fun l t hst hl => ?_
    rw [pure_bind]
    exact (h _ t hst).does hl
  · rw [pure_bind]
    exact h slot s .refl

theorem seats_asStatement (hc : σ.WritesCode) (hw : σ.CoversWalk p w)
    (hcall : σ.Knows s callable) {e : Expr} {f : Slot → Extract β} {R : β → Session → Prop}
    (h : ∀ slot' t, σ.Seated p slot s t → σ.Seats p slot' t (f slot') R) :
    σ.Seats p slot s (w.asStatement callable e slot >>= f) R := by
  unfold Walk.asStatement
  split
  · rw [pure_bind]
    exact h slot s .refl
  · rw [bind_assoc]
    refine seats_bind (seats_nodeRow hc hw hcall) fun l t hst hl => ?_
    rw [pure_bind]
    exact (h _ t hst).does hl

/-! ## Variables and statements -/

theorem does_variableExpr (hc : σ.WritesCode) (hw : σ.CoversWalk p w)
    (hcall : σ.Knows s callable) {parent : Label} (hparent : σ.Knows s parent) {id : DeclId}
    (he : σ.ReadsAll p (p.initializer id)) (index : Int) :
    σ.Does p s (w.variableExpr callable id parent index) Any := by
  apply does_read
  split
  · next span v hd =>
    apply does_bind (does_localVariable id)
    intro variableLabel t₁ h₁ hvar
    apply does_bind does_fresh
    intro expr t₂ h₂ hexpr
    apply does_bind (hw.type t₂ _ _)
    intro type t₃ h₃ htype
    apply does_bind (does_location _)
    intro place t₄ h₄ hplace
    have hvar₄ := h₄.knows (h₃.knows (h₂.knows hvar))
    have hexpr₄ := h₄.knows (h₃.knows hexpr)
    have hhost₄ := h₄.knows htype.1
    have hrich₄ := h₄.knows htype.2
    have hparent₄ := h₄.knows (h₃.knows (h₂.knows (h₁.knows hparent)))
    have hcall₄ := h₄.knows (h₃.knows (h₂.knows (h₁.knows hcall)))
    refine does_bind (does_writeCode hc (by decide) ⟨hvar₄, hhost₄, hrich₄, hexpr₄, trivial⟩)
      fun _ t₅ h₅ _ => ?_
    refine does_bind (does_write (by decide) ⟨h₅.knows hvar₄, h₅.knows hplace, trivial⟩)
      fun _ t₆ h₆ _ => ?_
    have h₄₆ := h₅.trans h₆
    apply does_bind (does_writeExpr hc (h₄₆.knows hexpr₄) (h₄₆.knows hhost₄)
      (h₄₆.knows hrich₄) (h₄₆.knows hparent₄))
    intro _ t₇ h₇ _
    have h₄₇ := h₄₆.trans h₇
    refine does_bind (does_write (by decide) ⟨h₄₇.knows hexpr₄, h₄₇.knows hplace, trivial⟩)
      fun _ t₈ h₈ _ => ?_
    have h₄₈ := h₄₇.trans h₈
    refine does_bind (does_writeCode hc (by decide)
      ⟨h₄₈.knows hexpr₄, h₄₈.knows hcall₄, trivial⟩) fun _ t₉ h₉ _ => ?_
    have h₄₉ := h₄₈.trans h₉
    split
    · next value hvalue =>
      refine hw.expression _ _ _ _ (h₄₉.knows hcall₄) (h₄₉.knows hexpr₄) (he value ?_)
      simp [Program.initializer, Program.kind?, hd, hvalue]
    · exact does_pure trivial
  · exact does_complain _

theorem seats_variableStatement (hc : σ.WritesCode) (hw : σ.CoversWalk p w)
    (hcall : σ.Knows s callable) {id : DeclId} (he : σ.ReadsAll p (p.initializer id)) :
    σ.Seats p slot s (w.variableStatement callable id slot) Any :=
  seats_read <| seats_bind (seats_stmtRow hc hcall) fun _ _ hst hl =>
    does_variableExpr hc hw (hst.knows hcall) hl he _

theorem seats_localDeclaration (hc : σ.WritesCode) (hw : σ.CoversWalk p w)
    (hcall : σ.Knows s callable) (id : DeclId) :
    σ.Seats p slot s (w.localDeclaration callable id slot) Any := by
  apply seats_read
  split
  · exact (does_complain _).seats
  · exact seats_bind (seats_stmtRow hc hcall) fun _ t _ _ =>
      does_bind (hw.classDeclaration t _) fun _ _ _ _ => does_pure trivial
  · exact (does_complainAt _ _).seats

theorem does_statement (hc : σ.WritesCode) (hw : σ.CoversWalk p w) (hcall : σ.Knows s callable)
    {parent : Label} (hparent : σ.Knows s parent) (index : Int) {statement : Statement}
    (he : σ.ReadsAll p (statement.parts p)) :
    σ.Does p s (w.statement callable parent index statement) Any := by
  match statement with
  | .expr e => exact hw.expression _ _ _ _ hcall hparent (he e (List.mem_singleton_self e))
  | .variable id => exact (seats_variableStatement hc hw hcall he).does hparent
  | .declaration id => exact (seats_localDeclaration hc hw hcall id).does hparent

theorem does_statements (hc : σ.WritesCode) (hw : σ.CoversWalk p w) (hcall : σ.Knows s callable)
    {block : Label} (hblock : σ.Knows s block) (first : Nat) {statements : List Statement}
    (he : σ.ReadsAll p (statements.flatMap (·.parts p))) :
    σ.Does p s (w.statements callable block first statements) Any :=
  does_forM fun (code, _) hmem _ hst =>
    does_statement hc hw (hst.knows hcall) (hst.knows hblock) _ fun e hpart =>
      he e (List.mem_flatMap.mpr ⟨code, List.fst_mem_of_mem_zipIdx hmem, hpart⟩)

/-! ## Calls -/

theorem does_valueArguments (hw : σ.CoversWalk p w) (hcall : σ.Knows s callable) {id : Label}
    (hid : σ.Knows s id) {call : Call} (he : σ.ReadsAll p (Walk.operands call)) :
    σ.Does p s (w.valueArguments callable call id) Any := by
  refine does_forM fun (argument, index) hmem t hst => ?_
  cases argument with
  | some e =>
    exact hw.expression _ _ _ _ (hst.knows hcall) (hst.knows hid)
      (he e (Walk.mem_operands (.inr (List.fst_mem_of_mem_zipIdx hmem))))
  | none => exact does_pure trivial

theorem does_receiver (hw : σ.CoversWalk p w) (hcall : σ.Knows s callable) {id : Label}
    (hid : σ.Knows s id) {call : Call} (he : σ.ReadsAll p (Walk.operands call)) (index : Int) :
    σ.Does p s (w.receiver callable call id index) Any := by
  unfold Walk.receiver
  split
  · next e hreceiver =>
    exact hw.expression _ _ _ _ hcall hid (he e (Walk.mem_operands (.inl hreceiver)))
  · exact does_pure trivial

theorem does_typeArgument (hc : σ.WritesCode) (hcall : σ.Knows s callable) {id parent : Label}
    (hid : σ.Knows s id) (hparent : σ.Knows s parent) {type : TypeViews}
    (htype : σ.KnowsViews s type) (index : Int) :
    σ.Does p s (Walk.typeArgument callable id type parent index) Any :=
  does_bind (does_writeExpr hc hid htype.1 htype.2 hparent) fun _ _ hst _ =>
    does_writeCode hc (by decide) ⟨hst.knows hid, hst.knows hcall, trivial⟩

theorem seats_methodCall (hc : σ.WritesCode) (hp : σ.Allows p) (hw : σ.CoversWalk p w)
    (hcall : σ.Knows s callable) (e : Expr) {call : Call}
    (he : σ.ReadsAll p (Walk.operands call)) :
    σ.Seats p slot s (w.methodCall callable e call slot) Any := by
  apply seats_bind (seats_nodeRow hc hw hcall)
  intro id t₁ h₁ hid
  apply does_bind (does_function hw.toCovers hp _)
  intro callee t₂ h₂ hcallee
  refine does_bind (does_writeCode hc (by decide) ⟨h₂.knows hid, hcallee, trivial⟩)
    fun _ t₃ h₃ _ => ?_
  have hid₃ := h₃.knows (h₂.knows hid)
  have hcall₃ := h₃.knows (h₂.knows (h₁.knows hcall))
  refine does_bind (does_forM fun a _ u hu => ?_) fun _ t₄ h₄ _ => ?_
  · apply does_bind does_fresh
    intro access u₁ k₁ haccess
    apply does_bind (hw.type u₁ _ _)
    intro type u₂ k₂ htype
    exact does_typeArgument hc (k₂.knows (k₁.knows (hu.knows hcall₃))) (k₂.knows haccess)
      (k₂.knows (k₁.knows (hu.knows hid₃))) htype _
  apply does_bind (does_receiver hw (h₄.knows hcall₃) (h₄.knows hid₃) he _)
  intro _ t₅ h₅ _
  exact does_valueArguments hw (h₅.knows (h₄.knows hcall₃)) (h₅.knows (h₄.knows hid₃)) he

theorem seats_call (hc : σ.WritesCode) (hp : σ.Allows p) (hw : σ.CoversWalk p w)
    (hcall : σ.Knows s callable) (e : Expr) {call : Call}
    (he : σ.ReadsAll p (Walk.operands call)) :
    σ.Seats p slot s (w.call callable e call slot) Any := by
  apply seats_asExpression hc hcall
  intro slot t₁ h₁
  have hcall₁ := h₁.knows hcall
  split
  · next kind left right hoperator =>
    rw [Walk.operands_of_operator? hoperator] at he
    apply seats_bind (seats_nodeRow hc hw hcall₁)
    intro id t₂ h₂ hid
    have hcall₂ := h₂.knows hcall₁
    apply does_bind (hw.expression _ _ _ _ hcall₂ hid (he left (by simp)))
    intro _ t₃ h₃ _
    exact hw.expression _ _ _ _ (h₃.knows hcall₂) (h₃.knows hid) (he right (by simp))
  · exact seats_methodCall hc hp hw hcall₁ e he

theorem seats_constructorCall (hc : σ.WritesCode) (hp : σ.Allows p) (hw : σ.CoversWalk p w)
    (hcall : σ.Knows s callable) (e : Expr) {call : Call}
    (he : σ.ReadsAll p (Walk.operands call)) :
    σ.Seats p slot s (w.constructorCall callable e call slot) Any := by
  apply seats_asExpression hc hcall
  intro slot t₁ h₁
  apply seats_bind (seats_nodeRow hc hw (h₁.knows hcall))
  intro id t₂ h₂ hid
  apply does_bind (does_function hw.toCovers hp _)
  intro callee t₃ h₃ hcallee
  refine does_bind (does_writeCode hc (by decide) ⟨h₃.knows hid, hcallee, trivial⟩)
    fun _ t₄ h₄ _ => ?_
  have hid₄ := h₄.knows (h₃.knows hid)
  have hcall₄ := h₄.knows (h₃.knows (h₂.knows (h₁.knows hcall)))
  apply does_bind (does_valueArguments hw hcall₄ hid₄ he)
  intro _ t₅ h₅ _
  have hcall₅ := h₅.knows hcall₄
  apply does_bind (does_receiver hw hcall₅ (h₅.knows hid₄) he _)
  intro _ t₆ h₆ _
  have hcall₆ := h₆.knows hcall₅
  apply does_when
  intro _
  apply does_bind (does_exprRow hc hw hcall₆ (h₆.knows (h₅.knows hid₄)))
  intro access t₇ h₇ ⟨haccess, _⟩
  apply does_forM
  intro a _ u hu
  apply does_bind (hw.type u _ _)
  intro type u₁ k₁ htype
  apply does_bind does_fresh
  intro id u₂ k₂ hid
  have h₇₂ := hu.trans (k₁.trans k₂)
  exact does_typeArgument hc (h₇₂.knows (h₇.knows hcall₆)) hid (h₇₂.knows haccess)
    ⟨k₂.knows htype.1, k₂.knows htype.2⟩ _

theorem seats_delegatingCall (hc : σ.WritesCode) (hp : σ.Allows p) (hw : σ.CoversWalk p w)
    (hcall : σ.Knows s callable) (e : Expr) {call : Call}
    (he : σ.ReadsAll p (Walk.operands call)) :
    σ.Seats p slot s (w.delegatingCall callable e call slot) Any := by
  apply seats_get
  split
  · exact (does_complainAt _ _).seats
  · refine seats_asStatement hc hw hcall fun slot t₁ h₁ => seats_read ?_
    refine seats_bind (seats_stmtRow hc (h₁.knows hcall)) fun stmt t₂ h₂ hstmt => ?_
    apply does_bind (does_function hw.toCovers hp _)
    intro callee t₃ h₃ hcallee
    refine does_bind (does_writeCode hc (by decide) ⟨h₃.knows hstmt, hcallee, trivial⟩)
      fun _ t₄ h₄ _ => ?_
    have hstmt₄ := h₄.knows (h₃.knows hstmt)
    have hcall₄ := h₄.knows (h₃.knows (h₂.knows (h₁.knows hcall)))
    apply does_bind (does_valueArguments hw hcall₄ hstmt₄ he)
    intro _ t₅ h₅ _
    exact does_receiver hw (h₅.knows hcall₄) (h₅.knows hstmt₄) he _

theorem seats_initializerCall (hc : σ.WritesCode) (hw : σ.CoversWalk p w)
    (hcall : σ.Knows s callable) (e : Expr) (id : DeclId) :
    σ.Seats p slot s (w.initializerCall callable e id slot) Any := by
  apply seats_asExpression hc hcall
  intro slot t₁ h₁
  refine seats_bind (seats_nodeRow hc hw (h₁.knows hcall)) fun row t₂ h₂ hrow => does_read ?_
  refine does_bind (does_callableKey hw.toCovers (letters_of_plain (by decide))
    (allowsParent_decl id) _ _) fun key t₃ h₃ hkey => ?_
  apply does_bind (does_labelFor hkey)
  intro obinit t₄ h₄ hobinit
  exact does_writeCode hc (by decide) ⟨h₄.knows (h₃.knows hrow), hobinit, trivial⟩

/-! ## Control flow -/

theorem seats_simpleStatement (hc : σ.WritesCode) (hw : σ.CoversWalk p w)
    (hcall : σ.Knows s callable) (kind : Trap.StmtKind) (e : Expr) {value : Expr}
    (hv : σ.Reads p value) :
    σ.Seats p slot s (w.simpleStatement callable kind e value slot) Any := by
  apply seats_asStatement hc hw hcall
  intro slot t₁ h₁
  apply seats_bind (seats_stmtRow hc (h₁.knows hcall))
  intro stmt t₂ h₂ hstmt
  exact hw.expression _ _ _ _ (h₂.knows (h₁.knows hcall)) hstmt hv

theorem Sound.knows_loop (h : σ.Sound s) {id : LoopId} {l : Label}
    (hl : s.openLoops.lookup id = some l) : σ.Knows s l := by
  obtain ⟨l₁, l₂, hs, -⟩ := List.lookup_eq_some_iff.mp hl
  exact h.loops (id, l) (by simp [hs])

/-- The end of a jump: the loop that it goes to, or a complaint. -/
def jumpsTo (stmt : Label) (kind : Trap.StmtKind) (e : Expr) (jump : Jump) : Extract Unit := do
  match (← get).openLoops.lookup jump.loopId with
  | some target => write (.ktBreakContinueTargets stmt target)
  | none => complainAt (.jumpTarget kind.name) e.span

theorem does_jumpsTo (hc : σ.WritesCode) {stmt : Label} (hstmt : σ.Knows s stmt)
    (kind : Trap.StmtKind) (e : Expr) (jump : Jump) :
    σ.Does p s (jumpsTo stmt kind e jump) Any := by
  apply does_get
  intro hs
  split
  · next target hl => exact does_writeCode hc (by decide) ⟨hstmt, hs.knows_loop hl, trivial⟩
  · exact does_complainAt _ _

theorem seats_jump (hc : σ.WritesCode) (hw : σ.CoversWalk p w) (hcall : σ.Knows s callable)
    (kind : Trap.StmtKind) (e : Expr) (jump : Jump) :
    σ.Seats p slot s (w.jump callable kind e jump slot) Any := by
  apply seats_asStatement hc hw hcall
  intro slot t₁ h₁
  apply seats_bind (seats_stmtRow hc (h₁.knows hcall))
  intro stmt t₂ h₂ hstmt
  split
  · exact does_bind (does_writeCode hc (by decide) ⟨hstmt, trivial⟩) fun _ t h _ =>
      does_jumpsTo hc (h.knows hstmt) kind e jump
  · exact does_jumpsTo hc hstmt kind e jump

theorem does_openLoop {id : LoopId} {label : Label} (h : σ.Knows s label) :
    σ.Does p s (Walk.openLoop id label) Any := by
  intro _ u s' he
  rw [ends_modify.mp he]
  exact ⟨leads_single (e := .enter id label) h nofun nofun nofun, trivial⟩

theorem does_closeLoop {id : LoopId} : σ.Does p s (Walk.closeLoop id) Any := by
  intro _ u s' he
  rw [ends_modify.mp he]
  exact ⟨leads_single (e := .leave id) trivial nofun nofun nofun, trivial⟩

theorem seats_loopSlot (hc : σ.WritesCode) (hcall : σ.Knows s callable) {e : Expr} {loop : Loop}
    {f : Slot → Extract β} {R : β → Session → Prop}
    (h : ∀ slot' t, σ.Seated p slot s t → σ.Seats p slot' t (f slot') R) :
    σ.Seats p slot s (Walk.loopSlot callable e loop slot >>= f) R := by
  unfold Walk.loopSlot
  split
  · rw [bind_assoc]
    refine seats_bind (seats_stmtRow hc hcall) fun labeled t ht hl => ?_
    rw [bind_assoc]
    refine does_bind (does_writeCode hc (by decide) ⟨hl, trivial⟩) fun _ u hu _ => ?_
    rw [pure_bind]
    exact (h _ u (ht.then hu)).does (hu.knows hl)
  · rw [pure_bind]
    exact h slot s .refl

theorem seats_loop (hc : σ.WritesCode) (hw : σ.CoversWalk p w) (hcall : σ.Knows s callable)
    (kind : Trap.StmtKind) (e : Expr) {loop : Loop}
    (he : σ.ReadsAll p (loop.condition :: loop.body.toList)) :
    σ.Seats p slot s (w.loop callable kind e loop slot) Any := by
  apply seats_asStatement hc hw hcall
  intro slot t₁ h₁
  have hcall₁ := h₁.knows hcall
  apply seats_loopSlot hc hcall₁
  intro slot t₂ h₂
  apply seats_bind (seats_stmtRow hc (h₂.knows hcall₁))
  intro stmt t₃ h₃ hstmt
  apply does_bind (does_openLoop hstmt)
  intro _ t₄ h₄ _
  have hcall₄ := h₄.knows (h₃.knows (h₂.knows hcall₁))
  apply does_bind (hw.expression _ _ _ _ hcall₄ (h₄.knows hstmt) (he _ List.mem_cons_self))
  intro _ t₅ h₅ _
  split
  · next body hbody =>
    exact does_bind (hw.expression _ _ _ _ (h₅.knows hcall₄) (h₅.knows (h₄.knows hstmt))
      (he body (by simp [hbody]))) fun _ _ _ _ => does_closeLoop
  · exact does_closeLoop

theorem does_catchClause (hc : σ.WritesCode) (hw : σ.CoversWalk p w)
    (hcall : σ.Knows s callable) {stmt : Label} (hstmt : σ.Knows s stmt) (index : Nat)
    {c : Catch} (he : σ.ReadsAll p (p.initializer c.parameter ++ [c.result])) :
    σ.Does p s (w.catchClause callable stmt index c) Any := by
  apply does_bind (does_stmtRow hc hcall hstmt)
  intro clause t₁ h₁ hclause
  have hcall₁ := h₁.knows hcall
  apply does_bind (does_variableExpr hc hw hcall₁ hclause
    (he.of_subset (List.subset_append_left _ _)) _)
  intro _ t₂ h₂ _
  exact hw.expression _ _ _ _ (h₂.knows hcall₁) (h₂.knows hclause) (he c.result (by simp))

theorem seats_tryStatement (hc : σ.WritesCode) (hw : σ.CoversWalk p w)
    (hcall : σ.Knows s callable) (e : Expr) {result : Expr} {catches : List Catch}
    {finish : Option Expr}
    (he : σ.ReadsAll p ((ExprKind.tryExpr result catches finish).parts p)) :
    σ.Seats p slot s (w.tryStatement callable e result catches finish slot) Any := by
  apply seats_asStatement hc hw hcall
  intro slot t₁ h₁
  apply seats_bind (seats_stmtRow hc (h₁.knows hcall))
  intro stmt t₂ h₂ hstmt
  have hcall₂ := h₂.knows (h₁.knows hcall)
  apply does_bind (hw.expression _ _ _ _ hcall₂ hstmt (he result (by simp [ExprKind.parts])))
  intro _ t₃ h₃ _
  have hcall₃ := h₃.knows hcall₂
  refine does_bind (does_forM fun (c, _) hclause u hu => ?_) fun _ t₄ h₄ _ => ?_
  · refine does_catchClause hc hw (hu.knows hcall₃) (hu.knows (h₃.knows hstmt)) _ fun e hpart => ?_
    exact he e (List.mem_append_left _ (List.mem_cons_of_mem _
      (List.mem_flatMap.mpr ⟨c, List.fst_mem_of_mem_zipIdx hclause, hpart⟩)))
  split
  · exact hw.expression _ _ _ _ (h₄.knows hcall₃) (h₄.knows (h₃.knows hstmt))
      (he _ (by simp [ExprKind.parts]))
  · exact does_pure trivial

theorem does_branch (hc : σ.WritesCode) (hw : σ.CoversWalk p w) (hcall : σ.Knows s callable)
    {id : Label} (hid : σ.Knows s id) (index : Nat) {b : Branch}
    (he : σ.ReadsAll p [b.condition, b.result]) :
    σ.Does p s (w.branch callable id index b) Any := by
  apply does_bind does_fresh
  intro row t₁ h₁ hrow
  refine does_bind (does_writeCode hc (by decide) ⟨hrow, h₁.knows hid, trivial⟩)
    fun _ t₂ h₂ _ => ?_
  apply does_bind (does_locate _ (h₂.knows hrow))
  intro _ t₃ h₃ _
  have hrow₃ := h₃.knows (h₂.knows hrow)
  have hcall₃ := h₃.knows (h₂.knows (h₁.knows hcall))
  apply does_bind (hw.expression _ _ _ _ hcall₃ hrow₃ (he b.condition (by simp)))
  intro _ t₄ h₄ _
  apply does_bind (hw.expression _ _ _ _ (h₄.knows hcall₃) (h₄.knows hrow₃)
    (he b.result (by simp)))
  intro _ t₅ h₅ _
  exact does_when fun _ => does_writeCode hc (by decide) ⟨h₅.knows (h₄.knows hrow₃), trivial⟩

theorem seats_whenExpr (hc : σ.WritesCode) (hw : σ.CoversWalk p w) (hcall : σ.Knows s callable)
    (e : Expr) {origin : Option StatementOrigin} {branches : List Branch}
    (he : σ.ReadsAll p ((ExprKind.when origin branches).parts p)) :
    σ.Seats p slot s (w.whenExpr callable e origin branches slot) Any := by
  apply seats_asExpression hc hcall
  intro slot t₁ h₁
  apply seats_bind (seats_nodeRow hc hw (h₁.knows hcall))
  intro id t₂ h₂ hid
  refine does_when_bind (fun _ => does_writeCode hc (by decide) ⟨hid, trivial⟩) fun t₃ h₃ => ?_
  have hcall₃ := h₃.knows (h₂.knows (h₁.knows hcall))
  exact does_forM fun (b, _) hb u hu =>
    does_branch hc hw (hu.knows hcall₃) (hu.knows (h₃.knows hid)) _ fun e hpart =>
      he e (List.mem_flatMap.mpr ⟨b, List.fst_mem_of_mem_zipIdx hb, hpart⟩)

/-! ## Values -/

theorem seats_constant (hc : σ.WritesCode) (hw : σ.CoversWalk p w) (hcall : σ.Knows s callable)
    (e : Expr) (value : ConstValue) :
    σ.Seats p slot s (w.constant callable e value slot) Any := by
  apply seats_asExpression hc hcall
  intro slot t₁ h₁
  apply seats_bind (seats_nodeRow hc hw (h₁.knows hcall))
  intro id t₂ h₂ hid
  split
  · exact does_writeCode hc (by decide) ⟨hid, trivial⟩
  · exact does_pure trivial

theorem does_thisQualifier (hc : σ.WritesCode) (hw : σ.CoversWalk p w)
    (hcall : σ.Knows s callable) {id : Label} (hid : σ.Knows s id) (e : Expr)
    (symbol owner : DeclId) : σ.Does p s (w.thisQualifier callable e symbol owner id) Any := by
  apply does_read
  split
  · refine does_ite (fun _ => ?_) fun _ => does_complainAt _ _
    exact does_bind (does_exprRow hc hw hcall hid) fun _ _ _ _ => does_pure trivial
  · exact does_when fun _ => does_complainAt _ _
  · exact does_pure trivial

theorem seats_access (hc : σ.WritesCode) (hw : σ.CoversWalk p w) (hcall : σ.Knows s callable)
    {e : Expr} {target : Extract Label} (ht : ∀ t, σ.Does p t target fun l u => σ.Knows u l) :
    σ.Seats p slot s (do
      let id ← w.nodeRow callable .varAccess e slot
      write (.variableBinding id (← target))) Any := by
  apply seats_bind (seats_nodeRow hc hw hcall)
  intro id t₁ _ hid
  apply does_bind (ht t₁)
  intro l t₂ h₂ hl
  exact does_writeCode hc (by decide) ⟨h₂.knows hid, hl, trivial⟩

theorem seats_readValue (hc : σ.WritesCode) (hp : σ.Allows p) (hw : σ.CoversWalk p w)
    (hcall : σ.Knows s callable) (e : Expr) (symbol : DeclId) :
    σ.Seats p slot s (w.readValue callable e symbol slot) Any := by
  refine seats_asExpression hc hcall fun slot t₁ h₁ => seats_read ?_
  have hcall₁ := h₁.knows hcall
  split
  · refine seats_ite (fun _ => ?_) fun _ =>
      seats_access hc hw hcall₁ fun _ => does_value hw.toCovers hp symbol
    apply seats_bind (seats_nodeRow hc hw hcall₁)
    intro id t₂ h₂ hid
    split
    · exact does_thisQualifier hc hw (h₂.knows hcall₁) hid _ _ _
    · exact does_pure trivial
  · exact seats_access hc hw hcall₁ fun _ => does_value hw.toCovers hp symbol

theorem seats_readMember (hc : σ.WritesCode) (hw : σ.CoversWalk p w)
    (hcall : σ.Knows s callable) (e : Expr) {target : Extract Label}
    (ht : ∀ t, σ.Does p t target fun l u => σ.Knows u l) :
    σ.Seats p slot s (w.readMember callable e target slot) Any :=
  seats_asExpression hc hcall fun _ _ h₁ => seats_access hc hw (h₁.knows hcall) ht

/-- The target may have no label of its own where its type is an error, for that is reported. -/
theorem seats_assignment (hc : σ.WritesCode) (hw : σ.CoversWalk p w) (hcall : σ.Knows s callable)
    (e : Expr) (id : DeclId) {target : Extract Label}
    (ht : ∀ t, σ.Does p t target fun l u => σ.Knows u l ∨
      l = .placeholder ∧ ∃ description, Projection.valueType p id = .error description)
    {value : Expr} (hv : σ.Reads p value) :
    σ.Seats p slot s (w.assignment callable e id target value slot) Any := by
  apply seats_asExpression hc hcall
  intro slot t₁ h₁
  apply does_bind_seats (ht t₁)
  intro target t₂ h₂ htarget
  have hcall₂ := h₂.knows (h₁.knows hcall)
  apply seats_bind (seats_nodeRow hc hw hcall₂)
  intro row t₃ h₃ hrow
  have hcall₃ := h₃.knows hcall₂
  refine does_read (does_bind (does_exprRow hc hw hcall₃ hrow) fun left t₄ h₄ hleft => ?_)
  have htarget₄ : σ.Knows t₄ target := by
    rcases htarget with htarget | ⟨rfl, description, hd⟩
    · exact h₄.knows (h₃.knows htarget)
    · exact knows_placeholder (hleft.2 description hd)
  refine does_bind (does_writeCode hc (by decide) ⟨hleft.1, htarget₄, trivial⟩)
    fun _ t₅ h₅ _ => ?_
  exact hw.expression _ _ _ _ (h₅.knows (h₄.knows hcall₃)) (h₅.knows (h₄.knows hrow)) hv

/-- What a field is assigned to has a type only if the field is declared. -/
theorem seats_setField (hc : σ.WritesCode) (hp : σ.Allows p) (hw : σ.CoversWalk p w)
    (hcall : σ.Knows s callable) (e : Expr) (id : DeclId) {value : Expr} (hv : σ.Reads p value) :
    σ.Seats p slot s (w.assignment callable e id (w.field id) value slot) Any := by
  refine seats_assignment hc hw hcall e id (fun t => ?_) hv
  refine (does_member? hw.toCovers hp (by decide) id).imp fun l u _ hl => hl.imp_right fun hnone =>
    ⟨hnone.1, ?_⟩
  simp [Projection.valueType, Program.kind?, hnone.2]

theorem seats_typeOperation (hc : σ.WritesCode) (hw : σ.CoversWalk p w)
    (hcall : σ.Knows s callable) (e : Expr) (operator : TypeOperator) (operand : IrType)
    {argument : Expr} (ha : σ.Reads p argument) :
    σ.Seats p slot s (w.typeOperation callable e operator operand argument slot) Any := by
  unfold Walk.typeOperation
  split
  · exact (does_complainAt _ _).seats
  · apply seats_asExpression hc hcall
    intro slot t₁ h₁
    apply seats_bind (seats_nodeRow hc hw (h₁.knows hcall))
    intro id t₂ h₂ hid
    have hcall₂ := h₂.knows (h₁.knows hcall)
    apply does_bind (does_exprRow hc hw hcall₂ hid)
    intro _ t₃ h₃ _
    exact hw.expression _ _ _ _ (h₃.knows hcall₂) (h₃.knows hid) ha

theorem seats_objectValue (hc : σ.WritesCode) (hp : σ.Allows p) (hw : σ.CoversWalk p w)
    (hcall : σ.Knows s callable) (e : Expr) (id : DeclId) :
    σ.Seats p slot s (w.objectValue callable e id slot) Any := by
  apply seats_asExpression hc hcall
  intro slot t₁ h₁
  apply seats_bind (seats_nodeRow hc hw (h₁.knows hcall))
  intro row t₂ h₂ hrow
  apply does_read
  split
  · exact does_complainAt _ _
  · refine does_ite (fun _ => ?_) fun _ => ?_
    · apply does_bind (does_companionField? hw.toCovers hp id)
      intro found t₃ h₃ hfound
      split
      · exact does_writeCode hc (by decide) ⟨h₃.knows hrow, hfound _ rfl, trivial⟩
      · exact does_pure trivial
    · apply does_bind (does_objectField hw.toCovers id)
      intro field t₃ h₃ hfield
      exact does_writeCode hc (by decide) ⟨h₃.knows hrow, hfield, trivial⟩

/-! ## The step of an expression -/

theorem seats_block (hc : σ.WritesCode) (hw : σ.CoversWalk p w) (hcall : σ.Knows s callable)
    (e : Expr) {statements : List Statement}
    (he : σ.ReadsAll p (statements.flatMap (·.parts p))) :
    σ.Seats p slot s (w.block callable e statements slot) Any := by
  apply seats_asStatement hc hw hcall
  intro slot t₁ h₁
  apply seats_bind (seats_stmtRow hc (h₁.knows hcall))
  intro block t₂ h₂ hblock
  exact does_statements hc hw (h₂.knows (h₁.knows hcall)) hblock _ he

theorem seats_compound (hc : σ.WritesCode) (hw : σ.CoversWalk p w) (hcall : σ.Knows s callable)
    (kind : Trap.ExprKind) (e : Expr) {parts : List Expr} (he : σ.ReadsAll p parts) :
    σ.Seats p slot s (w.compound callable kind e parts slot) Any := by
  apply seats_asExpression hc hcall
  intro slot t₁ h₁
  apply seats_bind (seats_nodeRow hc hw (h₁.knows hcall))
  intro id t₂ h₂ hid
  have hcall₂ := h₂.knows (h₁.knows hcall)
  exact does_forM fun (part, _) hmem _ hu =>
    hw.expression _ _ _ _ (hu.knows hcall₂) (hu.knows hid)
      (he part (List.fst_mem_of_mem_zipIdx hmem))

theorem seats_vararg (hc : σ.WritesCode) (hw : σ.CoversWalk p w) (hcall : σ.Knows s callable)
    (e : Expr) {elements : List VarargElement}
    (he : σ.ReadsAll p (elements.flatMap (·.parts))) :
    σ.Seats p slot s (w.vararg callable e elements slot) Any := by
  apply seats_asExpression hc hcall
  intro slot t₁ h₁
  apply seats_bind (seats_nodeRow hc hw (h₁.knows hcall))
  intro id t₂ h₂ hid
  have hcall₂ := h₂.knows (h₁.knows hcall)
  refine does_forM fun (element, index) hmem u hu => ?_
  cases element with
  | expr part =>
    refine hw.expression _ _ _ _ (hu.knows hcall₂) (hu.knows hid) (he part ?_)
    exact List.mem_flatMap.mpr
      ⟨.expr part, List.fst_mem_of_mem_zipIdx hmem, List.mem_singleton_self part⟩
  | spread e => exact does_complainAt _ _

theorem seats_expressionStep (hc : σ.WritesCode) (hp : σ.Allows p) (hw : σ.CoversWalk p w)
    (hcall : σ.Knows s callable) (he : σ.Reads p e) :
    σ.Seats p slot s (w.expressionStep callable slot e) Any := by
  have hπ := hw.toCovers
  unfold Walk.expressionStep
  split
  · next h => exact seats_call hc hp hw hcall e (he.parts h)
  · next h => exact seats_constructorCall hc hp hw hcall e (he.parts h)
  · next h => exact seats_constructorCall hc hp hw hcall e (he.parts h)
  · next h => exact seats_delegatingCall hc hp hw hcall e (he.parts h)
  · exact seats_initializerCall hc hw hcall e _
  · next h => exact seats_simpleStatement hc hw hcall _ e (he.parts h _ List.mem_cons_self)
  · next h => exact seats_simpleStatement hc hw hcall _ e (he.parts h _ List.mem_cons_self)
  · exact seats_jump hc hw hcall _ e _
  · exact seats_jump hc hw hcall _ e _
  · next h => exact seats_tryStatement hc hw hcall e (he.parts h)
  · next h => exact seats_block hc hw hcall e (he.parts h)
  · next h => exact seats_loop hc hw hcall _ e (he.parts h)
  · next h => exact seats_loop hc hw hcall _ e (he.parts h)
  · next h => exact seats_compound hc hw hcall _ e (he.parts h)
  · exact seats_constant hc hw hcall e _
  · exact seats_readValue hc hp hw hcall e _
  · next h =>
    exact seats_readMember hc hw hcall e fun _ =>
      does_field hπ hp (he.declares (by rw [h]; rfl))
  · next h =>
    exact seats_readMember hc hw hcall e fun _ =>
      does_enumEntry hπ hp (he.declares (by rw [h]; rfl))
  · next h =>
    exact seats_assignment hc hw hcall e _
      (fun _ => (does_value hπ hp _).imp fun _ _ _ hl => .inl hl)
      (he.parts h _ List.mem_cons_self)
  · next h => exact seats_setField hc hp hw hcall e _ (he.parts h _ List.mem_cons_self)
  · next h => exact seats_whenExpr hc hw hcall e (he.parts h)
  · next h => exact seats_compound hc hw hcall _ e (he.parts h)
  · next h => exact seats_typeOperation hc hw hcall e _ _ (he.parts h _ List.mem_cons_self)
  · next h => exact seats_vararg hc hw hcall e (he.parts h)
  · exact seats_objectValue hc hp hw hcall e _
  · exact (does_complainAt _ _).seats

end Scope

end IrFacts
