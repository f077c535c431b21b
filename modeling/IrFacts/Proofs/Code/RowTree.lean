import IrFacts.Proofs.Code.Filled
import IrFacts.Proofs.Run.Sink

/-!
# The rows of an expression form a tree

Every construct puts its own node into the slot that it is given, and the parts
of it into slots under that node, no two of them into one. So the rows that are
written of an expression hang from its slot, whatever is nested in it.
-/

set_option autoImplicit false

namespace IrFacts

/-! ## What an expression unfolds to -/

/-- Unfolding an expression through its parts and the initializers of its
variables comes to an end, and meets no local class. -/
inductive Expr.Unfolds (p : Program) : Expr → Prop where
  | intro (e : Expr) : (∀ s ∈ e.kind.statements, s.isLocalClass p = false) →
      (∀ part ∈ e.kind.parts p, part.Unfolds p) → e.Unfolds p

/-- Everything that a walk writes of an expression hangs from its slot. -/
structure Walk.Hangs (p : Program) (w : Walk) (callable : Label) : Prop where
  covers : Scope.unmarked.Covers p w.toProjection
  expression : ∀ e : Expr, e.Unfolds p → ∀ s slot u s', s.Old slot.parent →
    Extract.Ends p s (w.expression callable slot e) u s' →
      Session.Filled callable false slot.parent (· = slot.index) s s'

namespace Walk

open Extract Session

variable {p : Program} {w : Walk} {callable parent : Label} {slot slot' : Slot}
  {s s' t : Session} {b : Bool} {I J : Int → Prop}

/-! ## Rows -/

theorem marks_writeExpr {id type richType : Label} {kind : Trap.ExprKind} {index : Int} {u : Unit}
    (he : Ends p s (writeExpr id kind type richType parent index) u s') :
    s.Marks s' [.node ⟨.expr, id, parent, index⟩, .richType id] := by
  obtain ⟨_, t, hrow, he⟩ := ends_bind.mp he
  simpa using (marks_fact hrow).trans (marks_fact he)

theorem marks_enclosing {id : Label} {u : Unit}
    (he : Ends p s (write (.callableEnclosingExpr id callable)) u s') :
    s.Marks s' [.enclosing id callable] := by
  simpa using marks_fact he

theorem made_of_fresh {n : Trap.Node} (hfresh : Ends p s fresh n.id t)
    (hrest : t.Marks s' (n.marks callable)) : Made callable s s' n := by
  obtain ⟨hid, rfl⟩ := ends_fresh.mp hfresh
  have hnext : s.table.next < (Event.fresh.step s).table.next := by
    rw [Event.step_table]
    exact Nat.lt_succ_self _
  exact ⟨(marks_step .fresh s).trans hrest, s.table.next, hid, Nat.le_refl _,
    Nat.lt_of_lt_of_le hnext hrest.1⟩

theorem marks_locate {l : Label} {span : Span} {u : Unit} (he : Ends p s (locate l span) u s') :
    s.Marks s' [] :=
  marks_of_does (Scope.does_locate span (Scope.unmarked_knows s l)) he

theorem marks_complainAt {problem : Problem} {span : Span} {u : Unit}
    (he : Ends p s (complainAt problem span) u s') : s.Marks s' [] :=
  marks_of_does (Scope.does_complainAt problem span) he

theorem marks_type (hw : w.Hangs p callable) {primitives : Bool} {type : IrType}
    {views : TypeViews} (he : Ends p s (w.type primitives type) views s') : s.Marks s' [] :=
  marks_of_does (hw.covers.type s primitives type) he

theorem made_exprRow (hw : w.Hangs p callable) {kind : Trap.ExprKind} {type : IrType}
    {span : Span} {index : Int} {id : Label}
    (he : Ends p s (w.exprRow callable kind type span parent index) id s') :
    Made callable s s' ⟨.expr, id, parent, index⟩ := by
  obtain ⟨id, t₁, hfresh, he⟩ := ends_bind.mp he
  obtain ⟨views, t₂, htype, he⟩ := ends_bind.mp he
  obtain ⟨_, t₃, hrow, he⟩ := ends_bind.mp he
  obtain ⟨_, t₄, hplace, he⟩ := ends_bind.mp he
  obtain ⟨_, t₅, hcall, he⟩ := ends_bind.mp he
  obtain ⟨rfl, rfl⟩ := ends_pure.mp he
  exact made_of_fresh hfresh ((((marks_type hw htype).trans (marks_writeExpr hrow)).trans
    (marks_locate hplace)).trans (marks_enclosing hcall))

theorem made_stmtRow {kind : Trap.StmtKind} {span : Span} {id : Label}
    (he : Ends p s (stmtRow callable kind span slot) id s') :
    Made callable s s' ⟨.stmt, id, slot.parent, slot.index⟩ := by
  obtain ⟨id, t₁, hfresh, he⟩ := ends_bind.mp he
  obtain ⟨_, t₂, hrow, he⟩ := ends_bind.mp he
  obtain ⟨_, t₃, hplace, he⟩ := ends_bind.mp he
  obtain ⟨rfl, rfl⟩ := ends_pure.mp he
  apply made_of_fresh hfresh
  simpa [Trap.Node.marks] using (marks_fact hrow).trans (marks_locate hplace)

/-- A slot is handed on as it is, or one under a new row that stands in it. -/
def Wraps (callable : Label) (slot slot' : Slot) (s t : Session) : Prop :=
  (slot' = slot ∧ s.Marks t []) ∨
    ∃ n, Made callable s t n ∧ n.isRow = true ∧ n.parent = slot.parent ∧ n.index = slot.index ∧
      slot'.parent = n.id

theorem Wraps.filled (h : Wraps callable slot slot' s t) (hold : s.Old slot.parent)
    (hf : t.Old slot'.parent →
      Filled callable false slot'.parent (· = slot'.index) t s') :
    Filled callable false slot.parent (· = slot.index) s s' := by
  rcases h with ⟨rfl, hm⟩ | ⟨n, hmade, hrow, hp, hi, hslot⟩
  · exact .after hm (hf (hold.of_marks hm))
  · have hfilled := hf (hslot ▸ hmade.old)
    rw [hslot] at hfilled
    have hn := hmade.filled (hp ▸ hold) hfilled
    rwa [hrow, hp, hi] at hn

theorem wraps_asExpression {e : Expr} (he : Ends p s (asExpression callable e slot) slot' s') :
    Wraps callable slot slot' s s' := by
  unfold asExpression at he
  split at he
  · obtain ⟨id, t, hrow, he⟩ := ends_bind.mp he
    obtain ⟨rfl, rfl⟩ := ends_pure.mp he
    exact Or.inr ⟨_, made_stmtRow hrow, rfl, rfl, rfl, rfl⟩
  · obtain ⟨rfl, rfl⟩ := ends_pure.mp he
    exact Or.inl ⟨rfl, .refl _⟩

theorem wraps_asStatement (hw : w.Hangs p callable) {e : Expr}
    (he : Ends p s (w.asStatement callable e slot) slot' s') :
    Wraps callable slot slot' s s' := by
  unfold asStatement at he
  split at he
  · obtain ⟨rfl, rfl⟩ := ends_pure.mp he
    exact Or.inl ⟨rfl, .refl _⟩
  · obtain ⟨id, t, hrow, he⟩ := ends_bind.mp he
    obtain ⟨rfl, rfl⟩ := ends_pure.mp he
    exact Or.inr ⟨_, made_exprRow hw hrow, rfl, rfl, rfl, rfl⟩

theorem filled_expressionSlot (hw : w.Hangs p callable) {e : Expr} {index : Int} {u : Unit}
    (hunfolds : e.Unfolds p) (hold : s.Old parent)
    (he : Ends p s (w.expressionSlot callable parent index e) u s') :
    Filled callable false parent (· = index) s s' :=
  hw.expression e hunfolds s (.expression parent index) u s' hold he

theorem filled_statementSlot (hw : w.Hangs p callable) {e : Expr} {index : Int} {u : Unit}
    (hunfolds : e.Unfolds p) (hold : s.Old parent)
    (he : Ends p s (w.statementSlot callable parent index e) u s') :
    Filled callable false parent (· = index) s s' :=
  hw.expression e hunfolds s (.statement parent index) u s' hold he

theorem position_inj (i j : Nat) (h : (i : Int) = j) : i = j := Int.ofNat.inj h

theorem filled_zipIdx {α : Type} {as : List α} {k : Nat} {g : Nat → Int}
    {f : α × Nat → Extract PUnit} {u : PUnit} (hg : ∀ i j, g i = g j → i = j)
    (hf : ∀ a ∈ as, ∀ i s u s', s.Old parent → Ends p s (f (a, i)) u s' →
      Filled callable b parent (· = g i) s s')
    (hold : s.Old parent) (he : Ends p s ((as.zipIdx k).forM f) u s') :
    Filled callable b parent (fun x => ∃ i, k ≤ i ∧ x = g i) s s' := by
  induction as generalizing s k with
  | nil =>
    exact filled_nil (marks_pure he)
  | cons a as ih =>
    obtain ⟨_, t, ha, hrest⟩ := ends_bind.mp he
    have hhead := hf a List.mem_cons_self k s _ t hold ha
    have htail := ih (fun b hb => hf b (List.mem_cons_of_mem _ hb)) (hold.of_filled hhead) hrest
    refine (hhead.append htail hold ?_).mono ?_
    · rintro x rfl ⟨i, hi, hx⟩
      have := hg _ _ hx
      omega
    · rintro x (rfl | ⟨i, hi, rfl⟩)
      · exact ⟨k, Nat.le_refl _, rfl⟩
      · exact ⟨i, by omega, rfl⟩

/-! ## Variables and statements -/

theorem filled_variableExpr (hw : w.Hangs p callable) {id : DeclId} {index : Int} {u : Unit}
    (hparts : ∀ e ∈ p.initializer id, e.Unfolds p) (hold : s.Old parent)
    (he : Ends p s (w.variableExpr callable id parent index) u s') :
    Filled callable false parent (· = index) s s' := by
  have he := ends_read_bind.mp he
  split at he
  · next span v hdecl =>
    obtain ⟨variableLabel, t₁, hvariable, he⟩ := ends_bind.mp he
    obtain ⟨expr, t₂, hfresh, he⟩ := ends_bind.mp he
    obtain ⟨views, t₃, htype, he⟩ := ends_bind.mp he
    obtain ⟨place, t₄, hplace, he⟩ := ends_bind.mp he
    obtain ⟨_, t₅, hlocal, he⟩ := ends_bind.mp he
    obtain ⟨_, t₆, hat, he⟩ := ends_bind.mp he
    obtain ⟨_, t₇, hrow, he⟩ := ends_bind.mp he
    obtain ⟨_, t₈, hat', he⟩ := ends_bind.mp he
    obtain ⟨_, t₉, hcall, he⟩ := ends_bind.mp he
    have hbefore := marks_of_does (Scope.does_localVariable id) hvariable
    have hrest := ((((((marks_type hw htype).trans
      (marks_of_does (Scope.does_location span) hplace)).trans
      (marks_write (by decide) hlocal)).trans (marks_write (by decide) hat)).trans
      (marks_writeExpr hrow)).trans (marks_write (by decide) hat')).trans (marks_enclosing hcall)
    have hmade : Made callable t₁ t₉ ⟨.expr, expr, parent, index⟩ := made_of_fresh hfresh hrest
    have hkind : p.kind? id = some (.variable v) := by rw [Program.kind?, hdecl]; rfl
    have hold₁ := hold.of_marks hbefore
    refine .after hbefore ?_
    cases hinit : v.initializer with
    | none =>
      rw [hinit] at he
      obtain ⟨-, rfl⟩ := ends_pure.mp he
      exact hmade.leaf hold₁
    | some e =>
      rw [hinit] at he
      have hunfolds : e.Unfolds p := hparts e (by simp [Program.initializer, hkind, hinit])
      exact hmade.filled hold₁ (filled_expressionSlot hw hunfolds hmade.old he)
  · exact filled_nil (marks_of_does (Scope.does_complain _) he)

theorem filled_variableStatement (hw : w.Hangs p callable) {id : DeclId} {u : Unit}
    (hparts : ∀ e ∈ p.initializer id, e.Unfolds p) (hold : s.Old slot.parent)
    (he : Ends p s (w.variableStatement callable id slot) u s') :
    Filled callable false slot.parent (· = slot.index) s s' := by
  obtain ⟨stmt, t, hrow, he⟩ := ends_bind.mp (ends_read_bind.mp he)
  have hmade := made_stmtRow hrow
  exact hmade.filled hold (filled_variableExpr hw hparts hmade.old he)

theorem marks_localDeclaration {id : DeclId} {u : Unit} (hclass : p.isClass id = false)
    (he : Ends p s (w.localDeclaration callable id slot) u s') : s.Marks s' [] := by
  have he := ends_read_bind.mp he
  split at he
  · exact marks_of_does (Scope.does_complain _) he
  · next hdecl => simp [Program.isClass, Program.class?, hdecl] at hclass
  · exact marks_complainAt he

theorem filled_statement (hw : w.Hangs p callable) {index : Int} {code : Statement} {u : Unit}
    (hparts : ∀ e ∈ code.parts p, e.Unfolds p) (hclass : code.isLocalClass p = false)
    (hold : s.Old parent) (he : Ends p s (w.statement callable parent index code) u s') :
    Filled callable false parent (· = index) s s' := by
  cases code with
  | expr e =>
    exact filled_statementSlot hw (hparts e (by simp [Statement.parts])) hold he
  | «variable» id => exact filled_variableStatement hw hparts hold he
  | declaration id => exact filled_nil (marks_localDeclaration hclass he)

theorem filled_block (hw : w.Hangs p callable) {e : Expr} {statements : List Statement}
    {u : Unit} (hclass : ∀ code ∈ statements, code.isLocalClass p = false)
    (hparts : ∀ part ∈ statements.flatMap (·.parts p), part.Unfolds p)
    (hold : s.Old slot.parent) (he : Ends p s (w.block callable e statements slot) u s') :
    Filled callable false slot.parent (· = slot.index) s s' := by
  obtain ⟨slot', t, hslot, he⟩ := ends_bind.mp he
  obtain ⟨block, t', hrow, he⟩ := ends_bind.mp he
  apply (wraps_asStatement hw hslot).filled hold
  intro hold'
  have hmade := made_stmtRow hrow
  refine hmade.filled hold' (filled_zipIdx (b := false) position_inj ?_ hmade.old he)
  intro code hcode i s u s' hold he
  exact filled_statement hw (fun e he => hparts e (List.mem_flatMap.mpr ⟨code, hcode, he⟩))
    (hclass code hcode) hold he

/-! ## Calls -/

theorem marks_callee (hw : w.Hangs p callable) {id : DeclId} {callee : Label}
    (he : Ends p s (w.function id) callee s') : s.Marks s' [] :=
  marks_of_does (Scope.does_function hw.covers (Scope.unmarked_allows p) id) he

theorem filled_valueArguments (hw : w.Hangs p callable) {call : Call} {id : Label} {u : Unit}
    (hparts : ∀ e ∈ operands call, e.Unfolds p) (hold : s.Old id)
    (he : Ends p s (w.valueArguments callable call id) u s') :
    Filled callable false id (fun i => 0 ≤ i) s s' := by
  refine (filled_zipIdx (g := fun i => (i : Int)) position_inj ?_ hold he).mono ?_
  · intro argument hargument i s u s' hold he
    cases argument with
    | none =>
      exact filled_nil (marks_pure he)
    | some e =>
      exact filled_expressionSlot hw (hparts e (mem_operands (Or.inr hargument))) hold he
  · rintro x ⟨i, -, rfl⟩
    exact Int.natCast_nonneg i

theorem filled_receiver (hw : w.Hangs p callable) {call : Call} {id : Label} {index : Int}
    {u : Unit} (hparts : ∀ e ∈ operands call, e.Unfolds p) (hold : s.Old id)
    (he : Ends p s (w.receiver callable call id index) u s') :
    Filled callable false id (· = index) s s' := by
  unfold receiver at he
  split at he
  · next e hreceiver =>
    exact filled_expressionSlot hw (hparts e (mem_operands (Or.inl hreceiver))) hold he
  · exact filled_nil (marks_pure he)

theorem marks_typeArgument {id : Label} {views : TypeViews} {index : Int} {u : Unit}
    (he : Ends p s (typeArgument callable id views parent index) u s') :
    s.Marks s' (Trap.Node.marks callable ⟨.expr, id, parent, index⟩) := by
  obtain ⟨_, t, hrow, he⟩ := ends_bind.mp he
  exact (marks_writeExpr hrow).trans (marks_enclosing he)

/-- The type argument of a call is a row without parts. -/
theorem filled_typeArgument {id : Label} {views : TypeViews} {index : Int} {u : Unit}
    (hfresh : Ends p s fresh id t) {t' : Session} (hbetween : t.Marks t' [])
    (hold : s.Old parent) (he : Ends p t' (typeArgument callable id views parent index) u s') :
    Filled callable false parent (· = index) s s' := by
  have hmade : Made callable s s' ⟨.expr, id, parent, index⟩ :=
    made_of_fresh hfresh (hbetween.trans (marks_typeArgument he))
  exact hmade.leaf hold

theorem filled_methodCall (hw : w.Hangs p callable) {e : Expr} {call : Call} {u : Unit}
    (hparts : ∀ e ∈ operands call, e.Unfolds p) (hold : s.Old slot.parent)
    (he : Ends p s (w.methodCall callable e call slot) u s') :
    Filled callable false slot.parent (· = slot.index) s s' := by
  obtain ⟨id, t₁, hrow, he⟩ := ends_bind.mp he
  obtain ⟨callee, t₂, hcallee, he⟩ := ends_bind.mp he
  obtain ⟨_, t₃, hbinding, he⟩ := ends_bind.mp he
  obtain ⟨_, t₄, htypes, he⟩ := ends_bind.mp he
  obtain ⟨_, t₅, hreceiver, he⟩ := ends_bind.mp he
  have hmade := made_exprRow hw hrow
  have hsilent := (marks_callee hw hcallee).trans (marks_write (by decide) hbinding)
  have hold₃ := hmade.old.of_marks hsilent
  -- Type arguments go down from -2, the receiver is at -1, value arguments go up from 0.
  have htypes : Filled callable false id (fun x => ∃ i, 0 ≤ i ∧ x = -2 - Int.ofNat i) t₃ t₄ := by
    refine filled_zipIdx ?_ ?_ hold₃ htypes
    · intro i j h
      simp only [Int.ofNat_eq_natCast] at h
      omega
    · intro argument _ i s u s' hold he
      obtain ⟨access, v, hfresh, he⟩ := ends_bind.mp he
      obtain ⟨views, v', htype, he⟩ := ends_bind.mp he
      exact filled_typeArgument hfresh (marks_type hw htype) hold he
  have hold₄ := hold₃.of_filled htypes
  have hreceiver := filled_receiver hw hparts hold₄ hreceiver
  have harguments := filled_valueArguments hw hparts (hold₄.of_filled hreceiver) he
  refine hmade.filled hold (.after hsilent (htypes.append
    (hreceiver.append harguments hold₄ ?_) hold₃ ?_))
  · rintro x rfl
    decide
  · rintro x ⟨i, -, rfl⟩
    simp only [Int.ofNat_eq_natCast]
    omega

theorem filled_call (hw : w.Hangs p callable) {e : Expr} {call : Call} {u : Unit}
    (hparts : ∀ e ∈ operands call, e.Unfolds p) (hold : s.Old slot.parent)
    (he : Ends p s (w.call callable e call slot) u s') :
    Filled callable false slot.parent (· = slot.index) s s' := by
  obtain ⟨slot', t, hslot, he⟩ := ends_bind.mp he
  apply (wraps_asExpression hslot).filled hold
  intro hold'
  split at he
  · next kind left right hoperator =>
    rw [operands_of_operator? hoperator] at hparts
    obtain ⟨id, t₁, hrow, he⟩ := ends_bind.mp he
    obtain ⟨_, t₂, hleft, he⟩ := ends_bind.mp he
    have hmade := made_exprRow hw hrow
    have hleft := filled_expressionSlot hw (hparts left (by simp)) hmade.old hleft
    have hright := filled_expressionSlot hw (hparts right (by simp))
      (hmade.old.of_filled hleft) he
    exact hmade.filled hold' (hleft.append hright hmade.old fun i hi => by omega)
  · exact filled_methodCall hw hparts hold' he

theorem filled_constructorCall (hw : w.Hangs p callable) {e : Expr} {call : Call} {u : Unit}
    (hparts : ∀ e ∈ operands call, e.Unfolds p) (hold : s.Old slot.parent)
    (he : Ends p s (w.constructorCall callable e call slot) u s') :
    Filled callable false slot.parent (· = slot.index) s s' := by
  obtain ⟨slot', t, hslot, he⟩ := ends_bind.mp he
  apply (wraps_asExpression hslot).filled hold
  intro hold'
  obtain ⟨id, t₁, hrow, he⟩ := ends_bind.mp he
  obtain ⟨callee, t₂, hcallee, he⟩ := ends_bind.mp he
  obtain ⟨_, t₃, hbinding, he⟩ := ends_bind.mp he
  obtain ⟨_, t₄, harguments, he⟩ := ends_bind.mp he
  obtain ⟨_, t₅, hreceiver, he⟩ := ends_bind.mp he
  have hmade := made_exprRow hw hrow
  have hsilent := (marks_callee hw hcallee).trans (marks_write (by decide) hbinding)
  have hold₃ := hmade.old.of_marks hsilent
  have harguments := filled_valueArguments hw hparts hold₃ harguments
  have hold₄ := hold₃.of_filled harguments
  have hreceiver := filled_receiver hw hparts hold₄ hreceiver
  have hold₅ := hold₄.of_filled hreceiver
  have htypes : Filled callable false id (· = -3) t₅ s' := by
    split at he
    · obtain ⟨access, t₆, haccess, he⟩ := ends_bind.mp he
      have hmade := made_exprRow hw haccess
      refine hmade.filled hold₅ (filled_zipIdx (b := false) position_inj ?_ hmade.old he)
      intro argument _ i s u s' hold he
      obtain ⟨views, v, htype, he⟩ := ends_bind.mp he
      obtain ⟨access', v', hfresh, he⟩ := ends_bind.mp he
      have htype := marks_type hw htype
      exact .after htype (filled_typeArgument hfresh (.refl v') (hold.of_marks htype) he)
    · exact filled_nil (marks_pure he)
  -- Value arguments go up from 0, the receiver is at -2, the type at -3.
  refine hmade.filled hold' (.after hsilent (harguments.append
    (hreceiver.append htypes hold₄ ?_) hold₃ ?_))
  · rintro x rfl
    decide
  · intro x hx
    omega

theorem filled_delegatingCall (hw : w.Hangs p callable) {e : Expr} {call : Call} {u : Unit}
    (hparts : ∀ e ∈ operands call, e.Unfolds p) (hold : s.Old slot.parent)
    (he : Ends p s (w.delegatingCall callable e call slot) u s') :
    Filled callable false slot.parent (· = slot.index) s s' := by
  have he := ends_get_bind.mp he
  split at he
  · exact filled_nil (marks_complainAt he)
  · obtain ⟨slot', t, hslot, he⟩ := ends_bind.mp he
    apply (wraps_asStatement hw hslot).filled hold
    intro hold'
    obtain ⟨stmt, t₁, hrow, he⟩ := ends_bind.mp (ends_read_bind.mp he)
    obtain ⟨callee, t₂, hcallee, he⟩ := ends_bind.mp he
    obtain ⟨_, t₃, hbinding, he⟩ := ends_bind.mp he
    obtain ⟨_, t₄, harguments, he⟩ := ends_bind.mp he
    have hmade := made_stmtRow hrow
    have hsilent := (marks_callee hw hcallee).trans (marks_write (by decide) hbinding)
    have hold₃ := hmade.old.of_marks hsilent
    have harguments := filled_valueArguments hw hparts hold₃ harguments
    have hreceiver := filled_receiver hw hparts (hold₃.of_filled harguments) he
    exact hmade.filled hold' (.after hsilent (harguments.append hreceiver hold₃ fun i hi => by
      omega))

theorem filled_initializerCall (hw : w.Hangs p callable) {e : Expr} {id : DeclId} {u : Unit}
    (hold : s.Old slot.parent) (he : Ends p s (w.initializerCall callable e id slot) u s') :
    Filled callable false slot.parent (· = slot.index) s s' := by
  obtain ⟨slot', t, hslot, he⟩ := ends_bind.mp he
  apply (wraps_asExpression hslot).filled hold
  intro hold'
  obtain ⟨row, t₁, hrow, he⟩ := ends_bind.mp he
  obtain ⟨key, t₂, hkey, he⟩ := ends_bind.mp (ends_read_bind.mp he)
  obtain ⟨obinit, t₃, hobinit, he⟩ := ends_bind.mp he
  have hkey := marks_of_does (Scope.does_callableKey hw.covers
    (Scope.letters_of_plain (by decide)) (Scope.allowsParent_decl id) [] _) hkey
  have hobinit := marks_of_does (Scope.does_labelFor (Scope.unmarked_spells t₂ key)) hobinit
  exact ((made_exprRow hw hrow).then
    ((hkey.trans hobinit).trans (marks_write (by decide) he))).leaf hold'

/-! ## Control flow -/

theorem filled_simpleStatement (hw : w.Hangs p callable) {kind : Trap.StmtKind} {e value : Expr}
    {u : Unit} (hunfolds : value.Unfolds p) (hold : s.Old slot.parent)
    (he : Ends p s (w.simpleStatement callable kind e value slot) u s') :
    Filled callable false slot.parent (· = slot.index) s s' := by
  obtain ⟨slot', t, hslot, he⟩ := ends_bind.mp he
  apply (wraps_asStatement hw hslot).filled hold
  intro hold'
  obtain ⟨stmt, t₁, hrow, he⟩ := ends_bind.mp he
  have hmade := made_stmtRow hrow
  exact hmade.filled hold' (filled_expressionSlot hw hunfolds hmade.old he)

theorem marks_jumpsTo {stmt : Label} {kind : Trap.StmtKind} {e : Expr} {jump : Jump} {u : Unit}
    (he : Ends p s (Scope.jumpsTo stmt kind e jump) u s') : s.Marks s' [] := by
  have he := ends_get_bind.mp he
  split at he
  · exact marks_write (by decide) he
  · exact marks_complainAt he

theorem filled_jump (hw : w.Hangs p callable) {kind : Trap.StmtKind} {e : Expr} {jump : Jump}
    {u : Unit} (hold : s.Old slot.parent)
    (he : Ends p s (w.jump callable kind e jump slot) u s') :
    Filled callable false slot.parent (· = slot.index) s s' := by
  obtain ⟨slot', t, hslot, he⟩ := ends_bind.mp he
  apply (wraps_asStatement hw hslot).filled hold
  intro hold'
  obtain ⟨stmt, t₁, hrow, he⟩ := ends_bind.mp he
  refine ((made_stmtRow hrow).then ?_).leaf hold'
  split at he
  · obtain ⟨_, t₂, hname, he⟩ := ends_bind.mp he
    exact (marks_write (by decide) hname).trans (marks_jumpsTo he)
  · exact marks_jumpsTo he

theorem marks_modify {f : Session → Session} {u : Unit}
    (hf : (f s).file = s.file) (he : Ends p s (modify f) u s') : s.Marks s' [] := by
  obtain rfl := ends_modify.mp he
  exact ⟨Nat.le_of_eq (by rw [table, table, hf]), [], wrote_nil (by rw [hf]), rfl⟩

theorem wraps_loopSlot {e : Expr} {loop : Loop}
    (he : Ends p s (loopSlot callable e loop slot) slot' s') :
    Wraps callable slot slot' s s' := by
  unfold loopSlot at he
  split at he
  · obtain ⟨labeled, t, hrow, he⟩ := ends_bind.mp he
    obtain ⟨_, t₁, hname, he⟩ := ends_bind.mp he
    obtain ⟨rfl, rfl⟩ := ends_pure.mp he
    exact Or.inr ⟨_, (made_stmtRow hrow).then (marks_write (by decide) hname), rfl, rfl, rfl, rfl⟩
  · obtain ⟨rfl, rfl⟩ := ends_pure.mp he
    exact Or.inl ⟨rfl, .refl _⟩

theorem filled_loop (hw : w.Hangs p callable) {kind : Trap.StmtKind} {e : Expr} {loop : Loop}
    {u : Unit} (hparts : ∀ part ∈ loop.condition :: loop.body.toList, part.Unfolds p)
    (hold : s.Old slot.parent) (he : Ends p s (w.loop callable kind e loop slot) u s') :
    Filled callable false slot.parent (· = slot.index) s s' := by
  obtain ⟨slot', t, hslot, he⟩ := ends_bind.mp he
  apply (wraps_asStatement hw hslot).filled hold
  intro hold
  obtain ⟨slot'', t', hslot, he⟩ := ends_bind.mp he
  apply (wraps_loopSlot hslot).filled hold
  intro hold
  obtain ⟨stmt, t₁, hrow, he⟩ := ends_bind.mp he
  obtain ⟨_, t₂, hopen, he⟩ := ends_bind.mp he
  obtain ⟨_, t₃, hcondition, he⟩ := ends_bind.mp he
  have hmade := (made_stmtRow hrow).then (marks_modify rfl hopen)
  have hcondition := filled_expressionSlot hw (hparts loop.condition (by simp)) hmade.old hcondition
  have hbody : Filled callable false stmt (· = 1) t₃ s' := by
    split at he
    · next body hsome =>
      obtain ⟨_, t₄, hbody, he⟩ := ends_bind.mp he
      exact (filled_statementSlot hw (hparts body (by simp [hsome]))
        (hmade.old.of_filled hcondition) hbody).then (marks_modify rfl he)
    · exact filled_nil (marks_modify rfl he)
  exact hmade.filled hold (hcondition.append hbody hmade.old fun i hi => by omega)

theorem filled_catchClause (hw : w.Hangs p callable) {stmt : Label} {index : Nat} {c : Catch}
    {u : Unit} (hparts : ∀ part ∈ p.initializer c.parameter ++ [c.result], part.Unfolds p)
    (hold : s.Old stmt) (he : Ends p s (w.catchClause callable stmt index c) u s') :
    Filled callable false stmt (· = (index : Int)) s s' := by
  obtain ⟨clause, t, hrow, he⟩ := ends_bind.mp he
  obtain ⟨_, t', hvariable, he⟩ := ends_bind.mp he
  have hmade := made_stmtRow hrow
  have hvariable := filled_variableExpr hw
    (fun e h => hparts e (List.mem_append_left _ h)) hmade.old hvariable
  have hresult := filled_statementSlot hw (hparts c.result (by simp))
    (hmade.old.of_filled hvariable) he
  exact hmade.filled hold (hvariable.append hresult hmade.old fun i hi => by omega)

theorem filled_tryStatement (hw : w.Hangs p callable) {e result : Expr} {catches : List Catch}
    {finish : Option Expr} {u : Unit}
    (hparts : ∀ part ∈ result :: catches.flatMap
      (fun c => p.initializer c.parameter ++ [c.result]) ++ finish.toList, part.Unfolds p)
    (hold : s.Old slot.parent)
    (he : Ends p s (w.tryStatement callable e result catches finish slot) u s') :
    Filled callable false slot.parent (· = slot.index) s s' := by
  obtain ⟨slot', t, hslot, he⟩ := ends_bind.mp he
  apply (wraps_asStatement hw hslot).filled hold
  intro hold
  obtain ⟨stmt, t₁, hrow, he⟩ := ends_bind.mp he
  obtain ⟨_, t₂, hresult, he⟩ := ends_bind.mp he
  obtain ⟨_, t₃, hcatches, he⟩ := ends_bind.mp he
  have hmade := made_stmtRow hrow
  have hresult := filled_statementSlot hw (hparts result (by simp)) hmade.old hresult
  have hold₂ := hmade.old.of_filled hresult
  have hcatches : Filled callable false stmt (fun x => ∃ i : Nat, 0 ≤ i ∧ x = i) t₂ t₃ := by
    refine filled_zipIdx position_inj (fun c hc i s u s' hold he => ?_) hold₂ hcatches
    refine filled_catchClause hw (fun part hpart => hparts part ?_) hold he
    exact List.mem_append_left _ (List.mem_cons_of_mem _ (List.mem_flatMap.mpr ⟨c, hc, hpart⟩))
  have hfinish : Filled callable false stmt (· = -2) t₃ s' := by
    cases finish with
    | some last =>
      exact filled_statementSlot hw (hparts last (by simp)) (hold₂.of_filled hcatches) he
    | none =>
      exact filled_nil (marks_pure he)
  -- The body is at -1, the clauses go up from 0, the last block is at -2.
  refine hmade.filled hold (hresult.append (hcatches.append hfinish hold₂ ?_) hmade.old ?_)
  · rintro x ⟨i, -, rfl⟩
    omega
  · rintro x rfl (⟨i, -, hi⟩ | hi) <;> omega

theorem filled_branch (hw : w.Hangs p callable) {id : Label} {index : Nat} {b : Branch}
    {u : Unit} (hcondition : b.condition.Unfolds p) (hresult : b.result.Unfolds p)
    (hold : s.Old id) (he : Ends p s (w.branch callable id index b) u s') :
    Filled callable true id (· = (index : Int)) s s' := by
  obtain ⟨row, t₁, hfresh, he⟩ := ends_bind.mp he
  obtain ⟨_, t₂, hrow, he⟩ := ends_bind.mp he
  obtain ⟨_, t₃, hplace, he⟩ := ends_bind.mp he
  obtain ⟨_, t₄, hfirst, he⟩ := ends_bind.mp he
  obtain ⟨_, t₅, hsecond, he⟩ := ends_bind.mp he
  have hend : t₅.Marks s' [] := by
    split at he
    · exact marks_write (by decide) he
    · exact marks_pure he
  have hmade : Made callable s t₃ ⟨.branch, row, id, index⟩ := by
    apply made_of_fresh hfresh
    simpa [Trap.Node.marks] using (marks_fact hrow).trans (marks_locate hplace)
  have hfirst := filled_expressionSlot hw hcondition hmade.old hfirst
  have hsecond := filled_statementSlot hw hresult (hmade.old.of_filled hfirst) hsecond
  exact (hmade.filled hold (hfirst.append hsecond hmade.old fun i hi => by omega)).then hend

theorem filled_whenExpr (hw : w.Hangs p callable) {e : Expr} {origin : Option StatementOrigin}
    {branches : List Branch} {u : Unit}
    (hparts : ∀ part ∈ branches.flatMap fun b => [b.condition, b.result], part.Unfolds p)
    (hold : s.Old slot.parent)
    (he : Ends p s (w.whenExpr callable e origin branches slot) u s') :
    Filled callable false slot.parent (· = slot.index) s s' := by
  obtain ⟨slot', t, hslot, he⟩ := ends_bind.mp he
  apply (wraps_asExpression hslot).filled hold
  intro hold
  obtain ⟨id, t₁, hrow, he⟩ := ends_bind.mp he
  rw [when_bind] at he
  obtain ⟨_, t₂, hif, he⟩ := ends_bind.mp he
  have hif : t₁.Marks t₂ [] := by
    split at hif
    · exact marks_write (by decide) hif
    · exact marks_pure hif
  have hmade := (made_exprRow hw hrow).then hif
  refine hmade.filled hold (filled_zipIdx (b := true) position_inj ?_ hmade.old he)
  intro b hb i s u s' hold he
  have hmem {part : Expr} (h : part ∈ [b.condition, b.result]) : part.Unfolds p :=
    hparts part (List.mem_flatMap.mpr ⟨b, hb, h⟩)
  exact filled_branch hw (hmem (by simp)) (hmem (by simp)) hold he

/-! ## Values -/

theorem filled_constant (hw : w.Hangs p callable) {e : Expr} {value : ConstValue} {u : Unit}
    (hold : s.Old slot.parent) (he : Ends p s (w.constant callable e value slot) u s') :
    Filled callable false slot.parent (· = slot.index) s s' := by
  obtain ⟨slot', t, hslot, he⟩ := ends_bind.mp he
  apply (wraps_asExpression hslot).filled hold
  intro hold
  obtain ⟨id, t₁, hrow, he⟩ := ends_bind.mp he
  refine ((made_exprRow hw hrow).then ?_).leaf hold
  split at he
  · exact marks_write (by decide) he
  · exact marks_pure he

theorem filled_thisQualifier (hw : w.Hangs p callable) {e : Expr} {symbol owner : DeclId}
    {id : Label} {u : Unit} (hold : s.Old id)
    (he : Ends p s (w.thisQualifier callable e symbol owner id) u s') :
    Filled callable false id (· = 0) s s' := by
  have he := ends_read_bind.mp he
  split at he
  · split at he
    · obtain ⟨access, t, hrow, he⟩ := ends_bind.mp he
      obtain ⟨-, rfl⟩ := ends_pure.mp he
      exact (made_exprRow hw hrow).leaf hold
    · exact filled_nil (marks_complainAt he)
  · split at he
    · exact filled_nil (marks_complainAt he)
    · exact filled_nil (marks_pure he)
  · exact filled_nil (marks_pure he)

theorem filled_access (hw : w.Hangs p callable) {e : Expr} {target : Extract Label}
    {Q : Label → Session → Prop} {u : Unit} (ht : ∀ t, Scope.unmarked.Does p t target Q)
    (hold : s.Old slot.parent) (he : Ends p s (do
      let id ← w.nodeRow callable .varAccess e slot
      write (.variableBinding id (← target))) u s') :
    Filled callable false slot.parent (· = slot.index) s s' := by
  obtain ⟨id, t₁, hrow, he⟩ := ends_bind.mp he
  obtain ⟨l, t₂, htarget, he⟩ := ends_bind.mp he
  exact ((made_exprRow hw hrow).then
    ((marks_of_does (ht t₁) htarget).trans (marks_write (by decide) he))).leaf hold

theorem filled_readMember (hw : w.Hangs p callable) {e : Expr} {target : Extract Label}
    {Q : Label → Session → Prop} {u : Unit} (ht : ∀ t, Scope.unmarked.Does p t target Q)
    (hold : s.Old slot.parent) (he : Ends p s (w.readMember callable e target slot) u s') :
    Filled callable false slot.parent (· = slot.index) s s' := by
  obtain ⟨slot', t, hslot, he⟩ := ends_bind.mp he
  exact (wraps_asExpression hslot).filled hold fun hold => filled_access hw ht hold he

theorem filled_readValue (hw : w.Hangs p callable) {e : Expr} {symbol : DeclId} {u : Unit}
    (hold : s.Old slot.parent) (he : Ends p s (w.readValue callable e symbol slot) u s') :
    Filled callable false slot.parent (· = slot.index) s s' := by
  obtain ⟨slot', t, hslot, he⟩ := ends_bind.mp he
  apply (wraps_asExpression hslot).filled hold
  intro hold
  have he := ends_read_bind.mp he
  have hvalue (t : Session) :=
    Scope.does_value (s := t) hw.covers (Scope.unmarked_allows p) symbol
  split at he
  · split at he
    · obtain ⟨id, t₁, hrow, he⟩ := ends_bind.mp he
      have hmade := made_exprRow hw hrow
      split at he
      · exact hmade.filled hold (filled_thisQualifier hw hmade.old he)
      · obtain ⟨-, rfl⟩ := ends_pure.mp he
        exact hmade.leaf hold
    · exact filled_access hw hvalue hold he
  · exact filled_access hw hvalue hold he

theorem filled_assignment (hw : w.Hangs p callable) {e value : Expr} {id : DeclId}
    {target : Extract Label} {Q : Label → Session → Prop} {u : Unit}
    (ht : ∀ t, Scope.unmarked.Does p t target Q) (hunfolds : value.Unfolds p)
    (hold : s.Old slot.parent)
    (he : Ends p s (w.assignment callable e id target value slot) u s') :
    Filled callable false slot.parent (· = slot.index) s s' := by
  obtain ⟨slot', t, hslot, he⟩ := ends_bind.mp he
  apply (wraps_asExpression hslot).filled hold
  intro hold
  obtain ⟨l, t₁, htarget, he⟩ := ends_bind.mp he
  obtain ⟨row, t₂, hrow, he⟩ := ends_bind.mp he
  obtain ⟨left, t₃, hleft, he⟩ := ends_bind.mp (ends_read_bind.mp he)
  obtain ⟨_, t₄, hbinding, he⟩ := ends_bind.mp he
  have htarget := marks_of_does (ht t) htarget
  have hmade := made_exprRow hw hrow
  have hleft : Filled callable false row (· = 0) t₂ t₄ :=
    ((made_exprRow hw hleft).then (marks_write (by decide) hbinding)).leaf hmade.old
  have hvalue := filled_expressionSlot hw hunfolds (hmade.old.of_filled hleft) he
  exact .after htarget (hmade.filled (hold.of_marks htarget)
    (hleft.append hvalue hmade.old fun i hi => by omega))

theorem filled_typeOperation (hw : w.Hangs p callable) {e argument : Expr}
    {operator : TypeOperator} {operand : IrType} {u : Unit} (hunfolds : argument.Unfolds p)
    (hold : s.Old slot.parent)
    (he : Ends p s (w.typeOperation callable e operator operand argument slot) u s') :
    Filled callable false slot.parent (· = slot.index) s s' := by
  unfold typeOperation at he
  split at he
  · exact filled_nil (marks_complainAt he)
  · next kind _ =>
    obtain ⟨slot', t, hslot, he⟩ := ends_bind.mp he
    apply (wraps_asExpression hslot).filled hold
    intro hold
    obtain ⟨id, t₁, hrow, he⟩ := ends_bind.mp he
    obtain ⟨access, t₂, haccess, he⟩ := ends_bind.mp he
    have hmade := made_exprRow hw hrow
    have haccess := (made_exprRow hw haccess).leaf hmade.old
    have hargument := filled_expressionSlot hw hunfolds (hmade.old.of_filled haccess) he
    refine hmade.filled hold (haccess.append hargument hmade.old ?_)
    rintro x rfl
    by_cases hcast : kind = .cast <;> simp [hcast]

theorem filled_objectValue (hw : w.Hangs p callable) {e : Expr} {id : DeclId} {u : Unit}
    (hold : s.Old slot.parent) (he : Ends p s (w.objectValue callable e id slot) u s') :
    Filled callable false slot.parent (· = slot.index) s s' := by
  obtain ⟨slot', t, hslot, he⟩ := ends_bind.mp he
  apply (wraps_asExpression hslot).filled hold
  intro hold
  obtain ⟨row, t₁, hrow, he⟩ := ends_bind.mp he
  refine ((made_exprRow hw hrow).then ?_).leaf hold
  have he := ends_read_bind.mp he
  split at he
  · exact marks_complainAt he
  · split at he
    · obtain ⟨found, t₂, hfound, he⟩ := ends_bind.mp he
      have hmarks := marks_of_does
        (Scope.does_companionField? hw.covers (Scope.unmarked_allows p) id) hfound
      split at he
      · exact hmarks.trans (marks_write (by decide) he)
      · obtain ⟨-, rfl⟩ := ends_pure.mp he
        exact hmarks
    · obtain ⟨field, t₂, hfield, he⟩ := ends_bind.mp he
      exact (marks_of_does (Scope.does_objectField hw.covers id) hfield).trans
        (marks_write (by decide) he)

theorem filled_compound (hw : w.Hangs p callable) {kind : Trap.ExprKind} {e : Expr}
    {parts : List Expr} {u : Unit} (hparts : ∀ part ∈ parts, part.Unfolds p)
    (hold : s.Old slot.parent) (he : Ends p s (w.compound callable kind e parts slot) u s') :
    Filled callable false slot.parent (· = slot.index) s s' := by
  obtain ⟨slot', t, hslot, he⟩ := ends_bind.mp he
  apply (wraps_asExpression hslot).filled hold
  intro hold
  obtain ⟨id, t₁, hrow, he⟩ := ends_bind.mp he
  have hmade := made_exprRow hw hrow
  refine hmade.filled hold (filled_zipIdx (b := false) position_inj ?_ hmade.old he)
  exact fun part hpart i s u s' hold he => filled_expressionSlot hw (hparts part hpart) hold he

theorem filled_vararg (hw : w.Hangs p callable) {e : Expr} {elements : List VarargElement}
    {u : Unit} (hparts : ∀ part ∈ elements.flatMap (·.parts), part.Unfolds p)
    (hold : s.Old slot.parent) (he : Ends p s (w.vararg callable e elements slot) u s') :
    Filled callable false slot.parent (· = slot.index) s s' := by
  obtain ⟨slot', t, hslot, he⟩ := ends_bind.mp he
  apply (wraps_asExpression hslot).filled hold
  intro hold
  obtain ⟨id, t₁, hrow, he⟩ := ends_bind.mp he
  have hmade := made_exprRow hw hrow
  refine hmade.filled hold (filled_zipIdx (b := false) position_inj ?_ hmade.old he)
  intro element helement i s u s' hold he
  cases element with
  | expr e =>
    have hunfolds := hparts e (List.mem_flatMap.mpr ⟨_, helement, List.mem_singleton_self e⟩)
    exact filled_expressionSlot hw hunfolds hold he
  | spread e => exact filled_nil (marks_complainAt he)

/-! ## The step of an expression -/

theorem filled_expressionStep (hw : w.Hangs p callable) {e : Expr} {u : Unit}
    (hunfolds : e.Unfolds p) (hold : s.Old slot.parent)
    (he : Ends p s (w.expressionStep callable slot e) u s') :
    Filled callable false slot.parent (· = slot.index) s s' := by
  have hπ := hw.covers
  have hp := Scope.unmarked_allows p
  obtain ⟨_, hclass, hparts⟩ := hunfolds
  obtain ⟨span, type, kind⟩ := e
  cases kind with
  | call c => exact filled_call hw hparts hold he
  | constructorCall c => exact filled_constructorCall hw hparts hold he
  | enumConstructorCall c => exact filled_constructorCall hw hparts hold he
  | delegatingConstructorCall c => exact filled_delegatingCall hw hparts hold he
  | instanceInitializerCall id => exact filled_initializerCall hw hold he
  | throwExpr value =>
    exact filled_simpleStatement hw (hparts value (List.mem_singleton_self _)) hold he
  | returnExpr value =>
    exact filled_simpleStatement hw (hparts value (List.mem_singleton_self _)) hold he
  | breakExpr jump => exact filled_jump hw hold he
  | continueExpr jump => exact filled_jump hw hold he
  | tryExpr result catches finish => exact filled_tryStatement hw hparts hold he
  | block statements => exact filled_block hw hclass hparts hold he
  | whileLoop loop => exact filled_loop hw hparts hold he
  | doWhileLoop loop => exact filled_loop hw hparts hold he
  | stringConcatenation arguments => exact filled_compound hw hparts hold he
  | const value => exact filled_constant hw hold he
  | getValue symbol => exact filled_readValue hw hold he
  | getField field =>
    exact filled_readMember hw (fun _ => Scope.does_field hπ hp (.inl rfl)) hold he
  | getEnumValue entry =>
    exact filled_readMember hw (fun _ => Scope.does_enumEntry hπ hp (.inl rfl)) hold he
  | setValue symbol value =>
    exact filled_assignment hw (fun _ => Scope.does_value hπ hp symbol)
      (hparts value (List.mem_singleton_self _)) hold he
  | setField field value =>
    exact filled_assignment hw (fun _ => Scope.does_field hπ hp (.inl rfl))
      (hparts value (List.mem_singleton_self _)) hold he
  | «when» origin branches => exact filled_whenExpr hw hparts hold he
  | getClass argument => exact filled_compound hw hparts hold he
  | typeOperator operator operand argument =>
    exact filled_typeOperation hw (hparts argument (List.mem_singleton_self _)) hold he
  | vararg elements => exact filled_vararg hw hparts hold he
  | getObjectValue id => exact filled_objectValue hw hold he
  | unsupported description => exact filled_nil (marks_complainAt he)

theorem hangs_walk (p : Program) (typeFuel walkFuel : Nat) (callable : Label) :
    (walk (projection typeFuel) walkFuel).Hangs p callable := by
  induction walkFuel with
  | zero =>
    exact ⟨Scope.unmarked_covers p typeFuel, fun _ _ _ _ _ _ _ he => absurd he ends_throw⟩
  | succ walkFuel ih =>
    exact ⟨Scope.unmarked_covers p typeFuel, fun e hunfolds s slot u s' hold he =>
      filled_expressionStep ih hunfolds hold he⟩

/-- The rows of an expression form a tree that hangs from its slot, whatever was
written before it and wherever the slot is. -/
theorem expression_rowTree (typeFuel walkFuel : Nat) {callable : Label} {slot : Slot} {e : Expr}
    {s s' : Session} {u : Unit} (hunfolds : e.Unfolds p) (hold : s.Old slot.parent)
    (he : Ends p s ((walk (projection typeFuel) walkFuel).expression callable slot e) u s') :
    ∃ ls, s.Wrote s' ls ∧
      (s'.file.writer.failure = none → s'.file.writer.sink.chunks =
        s.file.writer.sink.chunks ++ ls.flatMap fun l => [.line l, .newline]) ∧
      Trap.RowTree callable slot.parent slot.index s.table.next s'.table.next
        (ls.filterMap Trap.Line.mark?) := by
  obtain ⟨ns, ⟨-, ls, hwrote, hmarks⟩, hfills⟩ :=
    (hangs_walk p typeFuel walkFuel callable).expression e hunfolds s slot u s' hold he
  refine ⟨ls, hwrote, fun hf => ?_, hmarks ▸ hfills.rowTree⟩
  have hputs : (ls.foldl Trap.Writer.put s.file.writer).failure = none := by
    rw [hwrote] at hf
    exact hf
  rw [hwrote]
  exact Trap.Writer.puts_took hputs

/-- A branch that returns, in the slot of an expression. -/
theorem expression_rowTree_when :
    let literal : Expr := ⟨default, .error "literal", .const (.boolean true)⟩
    let e : Expr := ⟨default, .error "when", .when (some .conditional)
      [⟨default, literal, ⟨default, .error "return", .returnExpr literal⟩, false⟩]⟩
    let p : Program := { files := #[], declarations := #[], classIndex := [] }
    let s : Session :=
      { file := .source (.ofSink .unbounded) "a.kt" .single, counter := {}, queue := .empty }
    let slot : Slot := .expression (.named "parent") 0
    e.Unfolds p ∧ s.Old slot.parent ∧ ∃ u s' ls,
      Ends p s ((walk (projection 8) 8).expression (.named "callable") slot e) u s' ∧
      s.Wrote s' ls ∧ Trap.RowTree (.named "callable") slot.parent slot.index
        s.table.next s'.table.next (ls.filterMap Trap.Line.mark?) := by
  intro literal e p s slot
  have hliteral : literal.Unfolds p := .intro _ (fun _ h => nomatch h) fun _ h => nomatch h
  have hreturn : Expr.Unfolds p ⟨default, .error "return", .returnExpr literal⟩ :=
    .intro _ (fun _ h => nomatch h) fun part h => by
      obtain rfl := List.mem_singleton.mp h
      exact hliteral
  have hunfolds : e.Unfolds p := .intro _ (fun _ h => nomatch h) fun part h => by
    rcases List.mem_cons.mp h with rfl | h
    · exact hliteral
    · obtain rfl := List.mem_singleton.mp h
      exact hreturn
  have hold : s.Old slot.parent := fun k h => nomatch h
  obtain ⟨u, s', he⟩ := ends_of_isOk (p := p) (s := s)
    (m := (walk (projection 8) 8).expression (.named "callable") slot e) (by decide +kernel)
  obtain ⟨ls, hwrote, -, htree⟩ := expression_rowTree 8 8 hunfolds hold he
  exact ⟨hunfolds, hold, u, s', ls, he, hwrote, htree⟩

end Walk

end IrFacts
