import IrFacts.Proofs.Code.LaidOut

/-!
# Every construct is laid out

Calls, control flow and values, each with the items that its layout names, and
from them the step of an expression with any supply of fuel.
-/

set_option autoImplicit false

namespace IrFacts

namespace Walk

open Extract Session

variable {p : Program} {w : Walk} {callable parent : Label} {slot slot' : Slot}
  {s s' t : Session} {e : Expr}

/-! ## Calls -/

theorem lays_valueArguments (hw : w.LaysOut p callable) {call : Call} {id : Label} {u : Unit}
    (hparts : ∀ e ∈ operands call, e.NoLocalClass p)
    (he : Ends p s (w.valueArguments callable call id) u s') :
    Lays p id call.argumentItems s s' := by
  refine lays_zipIdx (fun argument hargument i s u s' he => ?_) he
  cases argument with
  | none => exact lays_nil (plays_pure he)
  | some e => exact lays_expressionSlot hw (hparts e (mem_operands (Or.inr hargument))) he

theorem lays_receiver (hw : w.LaysOut p callable) {call : Call} {id : Label} {index : Int}
    {u : Unit} (hparts : ∀ e ∈ operands call, e.NoLocalClass p)
    (he : Ends p s (w.receiver callable call id index) u s') :
    Lays p id (call.receiverItems index) s s' := by
  unfold receiver at he
  unfold Call.receiverItems
  split at he
  · next e hreceiver =>
    rw [hreceiver]
    exact lays_expressionSlot hw (hparts e (mem_operands (Or.inl hreceiver))) he
  · next hreceiver =>
    rw [hreceiver]
    exact lays_nil (plays_pure he)

theorem plays_binding (hw : w.LaysOut p callable) {callee id : Label} {f : DeclId} {u : Unit}
    (hcallee : Ends p s (w.function f) callee t)
    (hbinding : Ends p t (write (.callableBinding id callee)) u s') : s.Plays s' [] :=
  (plays_of_aside (asks_function hw.toStable f).aside hcallee).trans
    (plays_write (by decide) (by decide) hbinding)

theorem shows_typeArgument {id : Label} {views : TypeViews} {index : Int} {u : Unit}
    (he : Ends p s (typeArgument callable id views parent index) u s') :
    s.Shows s' [.row ⟨.expr .typeAccess, id, parent, index⟩] := by
  obtain ⟨_, t, hrow, he⟩ := ends_bind.mp he
  exact (shows_writeExpr hrow).trans (shows_aside (aside_write (by decide) (by decide)) he)

theorem lays_typeArguments (hw : w.LaysOut p callable) {call : Call} {id : Label} {u : PUnit}
    (he : Ends p s (call.typeArguments.zipIdx.forM fun (argument, index) => do
      let access ← fresh
      let type ← w.type false argument
      typeArgument callable access type id (-2 - Int.ofNat index)) u s') :
    Lays p id call.typeItems s s' := by
  refine lays_zipIdx_map (fun argument _ i s u s' he => ?_) he
  obtain ⟨access, v, hfresh, he⟩ := ends_bind.mp he
  obtain ⟨views, v', htype, he⟩ := ends_bind.mp he
  have htype := shows_aside (hw.asksType false argument).aside htype
  exact lays_leaf (plays_of_fresh hfresh (htype.trans (shows_typeArgument he)))

theorem lays_constructedType (hw : w.LaysOut p callable) {call : Call} {id : Label} {u : Unit}
    (he : Ends p s (do
      if !call.typeArguments.isEmpty then
        let access ← w.exprRow callable .typeAccess e.type e.span id (-3)
        call.typeArguments.zipIdx.forM fun (argument, index) => do
          let type ← w.type false argument
          typeArgument callable (← fresh) type access index) u s') :
    Lays p id call.classItems s s' := by
  unfold Call.classItems
  split at he
  · next h =>
    obtain ⟨access, t, haccess, he⟩ := ends_bind.mp he
    rw [if_neg (by simpa using h)]
    refine lays_row (plays_exprRow hw haccess) (lays_zipIdx_map ?_ he)
    intro argument _ i s u s' he
    obtain ⟨views, v, htype, he⟩ := ends_bind.mp he
    obtain ⟨access', v', hfresh, he⟩ := ends_bind.mp he
    have htype := plays_of_aside (hw.asksType false argument).aside htype
    exact lays_leaf (htype.trans (plays_of_fresh hfresh (shows_typeArgument he)))
  · next h =>
    rw [if_pos (by simpa using h)]
    exact lays_nil (plays_pure he)

theorem lays_call (hw : w.LaysOut p callable) {call : Call} {u : Unit}
    (hnode : e.kind = .call call) (hclass : e.NoLocalClass p)
    (he : Ends p s (w.call callable e call slot) u s') :
    Lays p slot.parent [.part slot.isStatement slot.index e] s s' := by
  have hparts := hclass.parts hnode
  obtain ⟨slot', t, hslot, he⟩ := ends_bind.mp he
  split at he
  · next kind left right hoperator =>
    have hparts : ∀ part ∈ [left, right], part.NoLocalClass p := by
      rwa [← operands_of_operator? hoperator]
    obtain ⟨id, t₁, hrow, he⟩ := ends_bind.mp he
    obtain ⟨_, t₂, hleft, he⟩ := ends_bind.mp he
    have hleft := lays_expressionSlot hw (hparts left (by simp)) hleft
    have hright := lays_expressionSlot hw (hparts right (by simp)) he
    refine lays_exprNode hnode rfl rfl ?_ hslot (plays_exprRow hw hrow) ?_
    · simp [ExprKind.row?, hoperator]
    · simpa [ExprKind.items, hoperator] using hleft.append hright
  · next hoperator =>
    obtain ⟨id, t₁, hrow, he⟩ := ends_bind.mp he
    obtain ⟨callee, t₂, hcallee, he⟩ := ends_bind.mp he
    obtain ⟨_, t₃, hbinding, he⟩ := ends_bind.mp he
    obtain ⟨_, t₄, htypes, he⟩ := ends_bind.mp he
    obtain ⟨_, t₅, hreceiver, he⟩ := ends_bind.mp he
    have hoperands := (lays_receiver hw hparts hreceiver).append (lays_valueArguments hw hparts he)
    have hitems := (lays_typeArguments hw htypes).append hoperands
    refine lays_exprNode hnode rfl rfl ?_ hslot (plays_exprRow hw hrow) ?_
    · simp [ExprKind.row?, hoperator]
    · simpa [ExprKind.items, hoperator] using hitems.after (plays_binding hw hcallee hbinding)

theorem lays_constructorCall (hw : w.LaysOut p callable) {call : Call} {u : Unit}
    (hnode : e.kind = .constructorCall call ∨ e.kind = .enumConstructorCall call)
    (hclass : e.NoLocalClass p) (he : Ends p s (w.constructorCall callable e call slot) u s') :
    Lays p slot.parent [.part slot.isStatement slot.index e] s s' := by
  have hparts : ∀ e ∈ operands call, e.NoLocalClass p := by
    rcases hnode with hnode | hnode <;> exact hclass.parts hnode
  obtain ⟨slot', t, hslot, he⟩ := ends_bind.mp he
  obtain ⟨id, t₁, hrow, he⟩ := ends_bind.mp he
  obtain ⟨callee, t₂, hcallee, he⟩ := ends_bind.mp he
  obtain ⟨_, t₃, hbinding, he⟩ := ends_bind.mp he
  obtain ⟨_, t₄, harguments, he⟩ := ends_bind.mp he
  obtain ⟨_, t₅, hreceiver, he⟩ := ends_bind.mp he
  have hitems : Lays p id call.constructorItems t₁ s' :=
    .after (plays_binding hw hcallee hbinding) ((lays_valueArguments hw hparts harguments).append
      ((lays_receiver hw hparts hreceiver).append (lays_constructedType hw he)))
  rcases hnode with hnode | hnode <;>
    exact lays_exprNode hnode rfl rfl rfl hslot (plays_exprRow hw hrow) hitems

theorem lays_delegatingCall (hw : w.LaysOut p callable) {call : Call} {u : Unit}
    (hnode : e.kind = .delegatingConstructorCall call) (hclass : e.NoLocalClass p)
    (he : Ends p s (w.delegatingCall callable e call slot) u s') :
    Lays p slot.parent [.part slot.isStatement slot.index e] s s' := by
  have hparts := hclass.parts hnode
  have he := ends_get_bind.mp he
  split at he
  · next hcurrent =>
    exact lays_skip (by rw [hnode, hcurrent]; rfl) (plays_complainAt (by simp) he)
  · next current hcurrent =>
    obtain ⟨slot', t, hslot, he⟩ := ends_bind.mp he
    obtain ⟨stmt, t₁, hrow, he⟩ := ends_bind.mp (ends_read_bind.mp he)
    obtain ⟨callee, t₂, hcallee, he⟩ := ends_bind.mp he
    obtain ⟨_, t₃, hbinding, he⟩ := ends_bind.mp he
    obtain ⟨_, t₄, harguments, he⟩ := ends_bind.mp he
    have harguments := lays_valueArguments hw hparts harguments
    refine lays_stmtNode hw hnode rfl rfl (by rw [hcurrent]; rfl) hslot hrow ?_
    exact .after (plays_binding hw hcallee hbinding)
      (harguments.append (lays_receiver hw hparts he))

theorem lays_initializerCall (hw : w.LaysOut p callable) {id : DeclId} {u : Unit}
    (hnode : e.kind = .instanceInitializerCall id)
    (he : Ends p s (w.initializerCall callable e id slot) u s') :
    Lays p slot.parent [.part slot.isStatement slot.index e] s s' := by
  obtain ⟨slot', t, hslot, he⟩ := ends_bind.mp he
  obtain ⟨row, t₁, hrow, he⟩ := ends_bind.mp he
  refine lays_exprNode hnode rfl rfl rfl hslot (plays_exprRow hw hrow) (lays_nil ?_)
  refine plays_of_aside ?_ (ends_read_bind.mp he)
  refine scripted_bind_of (asks_callableKey hw.toStable _ _ _ _).aside
    (fun _ _ _ => callableKey_start) fun key hkey => ?_
  exact scripted_bind (scripted_labelFor (Event.plainKey_of_start (by decide) hkey)) fun _ =>
    aside_write (by decide) (by decide)

/-! ## Control flow -/

theorem lays_simpleStatement (hw : w.LaysOut p callable) {node : ExprKind}
    {kind : Trap.StmtKind} {value : Expr} {u : Unit} (hnode : e.kind = node)
    (hloop : node.loop? = none) (hjump : node.jump? = none)
    (hkind : node.row? p s.currentFunction = some (.stmt kind))
    (hitems : node.items p = [.part false 0 value]) (hvalue : value.NoLocalClass p)
    (he : Ends p s (w.simpleStatement callable kind e value slot) u s') :
    Lays p slot.parent [.part slot.isStatement slot.index e] s s' := by
  obtain ⟨slot', t, hslot, he⟩ := ends_bind.mp he
  obtain ⟨stmt, t₁, hrow, he⟩ := ends_bind.mp he
  refine lays_stmtNode hw hnode hloop hjump hkind hslot hrow ?_
  rw [hitems]
  exact lays_expressionSlot hw hvalue he

theorem plays_jumpsTo {stmt : Label} {kind : Trap.StmtKind} {jump : Jump} {u : Unit}
    (he : Ends p s (Scope.jumpsTo stmt kind e jump) u s') :
    s.Plays s' [.jump stmt jump.loopId] := by
  have he := ends_get_bind.mp he
  split at he
  · next target hlookup =>
    obtain rfl := ends_write.mp he
    refine Shows.plays (shows_step ?_ ?_ rfl rfl fun h => ⟨h, ?_⟩) rfl
    · rfl
    · simp [Event.lines, Trap.Line.leap?, Trap.Fact.leap?, Trap.Fact.ktBreakContinueTargets,
        Cue.jumps, Cue.jump?, Cue.told, hlookup]
    · simp [Event.step, Session.mapWriter, Cue.jumps, Cue.jump?, Cue.astray, hlookup]
  · next hlookup =>
    obtain ⟨place, t, hplace, he⟩ := ends_bind.mp he
    have hplace := plays_of_aside (scripted_location e.span) hplace
    have hloops : t.openLoops = s.openLoops := hplace.loops
    refine hplace.trans (Shows.plays ?_ rfl)
    rw [ends_reportAt.mp he]
    obtain ⟨hrows, hleaps⟩ := diagnostic_silent t.counter (.jumpTarget kind.name) place
    refine shows_step hrows ?_ rfl rfl fun h => ?_
    · simp [Event.lines, hleaps, Cue.jumps, Cue.jump?, Cue.told, hloops, hlookup]
    · have hreport := report_countOf h (.jumpTarget kind.name) place Problem.jumpSite
      simpa [Problem.site, Problem.jumpSite, Cue.jumps, Cue.jump?, Cue.astray, hloops, hlookup]
        using hreport

theorem lays_jump (hw : w.LaysOut p callable) {kind : Trap.StmtKind} {jump : Jump} {u : Unit}
    (hnode : (e.kind = .breakExpr jump ∧ kind = .breakStmt) ∨
      (e.kind = .continueExpr jump ∧ kind = .continueStmt))
    (he : Ends p s (w.jump callable kind e jump slot) u s') :
    Lays p slot.parent [.part slot.isStatement slot.index e] s s' := by
  obtain ⟨slot', t, hslot, he⟩ := ends_bind.mp he
  obtain ⟨stmt, t₁, hrow, he⟩ := ends_bind.mp he
  have hjump : t₁.Plays s' [.jump stmt jump.loopId] := by
    split at he
    · obtain ⟨_, t₂, hname, he⟩ := ends_bind.mp he
      exact (plays_write (by decide) (by decide) hname).trans (plays_jumpsTo he)
    · exact plays_jumpsTo he
  have hslotted := slotted_asStatement hw hslot
  rcases hnode with ⟨hnode, rfl⟩ | ⟨hnode, rfl⟩ <;>
  · refine lays_part (by rw [hnode]; rfl) ?_ (plays_stmtRow hrow) fun loops =>
      ⟨[], [], by rw [hnode]; exact .nil loops stmt, by rw [hnode]; exact hjump⟩
    rw [wrappers_statement, hnode]
    simpa [ExprKind.loop?] using hslotted

theorem slotted_loopSlot {loop : Loop}
    (he : Ends p s (loopSlot callable e loop slot) slot' s') :
    Slotted (loop.label.toList.map fun _ => .stmt .labeled) slot slot' s s' := by
  unfold loopSlot at he
  split at he
  · next label hlabel =>
    obtain ⟨labeled, t, hrow, he⟩ := ends_bind.mp he
    obtain ⟨_, t₁, hname, he⟩ := ends_bind.mp he
    obtain ⟨rfl, rfl⟩ := ends_pure.mp he
    rw [hlabel]
    exact slotted_row ((plays_stmtRow hrow).then (plays_write (by decide) (by decide) hname)) true
  · next hlabel =>
    obtain ⟨rfl, rfl⟩ := ends_pure.mp he
    rw [hlabel]
    exact slotted_nil (.refl _)

theorem plays_openLoop {id : LoopId} {label : Label} {u : Unit}
    (he : Ends p s (openLoop id label) u s') : s.Plays s' [.opened id label] := by
  obtain rfl := ends_modify.mp he
  exact Shows.plays (shows_step (e := .enter id label) rfl rfl rfl rfl fun h => ⟨h, rfl⟩) rfl

theorem plays_closeLoop {id : LoopId} {u : Unit} (he : Ends p s (closeLoop id) u s') :
    s.Plays s' [.closed id] := by
  obtain rfl := ends_modify.mp he
  exact Shows.plays (shows_step (e := .leave id) rfl rfl rfl rfl fun h => ⟨h, rfl⟩) rfl

theorem lays_loop (hw : w.LaysOut p callable) {kind : Trap.StmtKind} {loop : Loop} {u : Unit}
    (hnode : (e.kind = .whileLoop loop ∧ kind = .whileStmt) ∨
      (e.kind = .doWhileLoop loop ∧ kind = .doStmt)) (hclass : e.NoLocalClass p)
    (he : Ends p s (w.loop callable kind e loop slot) u s') :
    Lays p slot.parent [.part slot.isStatement slot.index e] s s' := by
  obtain ⟨slot₁, t, hslot, he⟩ := ends_bind.mp he
  obtain ⟨slot₂, t', hlabel, he⟩ := ends_bind.mp he
  obtain ⟨stmt, t₁, hrow, he⟩ := ends_bind.mp he
  obtain ⟨_, t₂, hopen, he⟩ := ends_bind.mp he
  obtain ⟨_, t₃, hcondition, he⟩ := ends_bind.mp he
  have hparts : ∀ part ∈ loop.condition :: loop.body.toList, part.NoLocalClass p := by
    rcases hnode with ⟨hnode, -⟩ | ⟨hnode, -⟩ <;> exact hclass.parts hnode
  have hcondition := lays_expressionSlot hw (hparts loop.condition (by simp)) hcondition
  obtain ⟨t₄, hbody, hclose⟩ : ∃ t₄, Lays p stmt (loop.body.toList.map (.part true 1)) t₃ t₄ ∧
      t₄.Plays s' [.closed loop.id] := by
    split at he
    · next body hsome =>
      obtain ⟨_, t₄, hbody, he⟩ := ends_bind.mp he
      rw [hsome]
      exact ⟨t₄, lays_statementSlot hw (hparts body (by simp [hsome])) hbody, plays_closeLoop he⟩
    · next hnone =>
      rw [hnone]
      exact ⟨t₃, lays_nil (.refl t₃), plays_closeLoop he⟩
  have hopen := plays_openLoop hopen
  have hslotted := (slotted_asStatement hw hslot).trans (slotted_loopSlot hlabel)
  have hitems : ∀ loops, ∃ cues leaps, Laid p t₁.currentFunction loops stmt loop.items cues leaps ∧
      t₁.Plays s' (.opened loop.id stmt :: (cues ++ [.closed loop.id])) := by
    intro loops
    obtain ⟨cues, leaps, hlaid, hplays⟩ := (hcondition.append hbody) loops
    rw [hopen.current] at hlaid
    exact ⟨cues, leaps, hlaid, hopen.trans (hplays.trans hclose)⟩
  rcases hnode with ⟨hnode, rfl⟩ | ⟨hnode, rfl⟩ <;>
  · refine lays_part (by rw [hnode]; rfl) ?_ (plays_stmtRow hrow) (by rw [hnode]; exact hitems)
    rw [wrappers_statement, hnode]
    exact hslotted

theorem lays_catchClause (hw : w.LaysOut p callable) {stmt : Label} {index : Nat} {c : Catch}
    {u : Unit} (hparts : ∀ part ∈ p.initializer c.parameter ++ [c.result], part.NoLocalClass p)
    (he : Ends p s (w.catchClause callable stmt index c) u s') :
    Lays p stmt [.row (.stmt .catchClause) (index : Int) (c.items p)] s s' := by
  obtain ⟨clause, t, hrow, he⟩ := ends_bind.mp he
  obtain ⟨_, t', hvariable, he⟩ := ends_bind.mp he
  have hvariable := lays_variableExpr hw
    (fun e h => hparts e (List.mem_append_left _ h)) hvariable
  have hresult := lays_statementSlot hw (hparts c.result (by simp)) he
  exact lays_row (plays_stmtRow hrow) (hvariable.append hresult)

theorem lays_catchClauses (hw : w.LaysOut p callable) {stmt : Label} {catches : List Catch}
    {u : Unit} (hparts : ∀ c ∈ catches, ∀ part ∈ p.initializer c.parameter ++ [c.result],
      part.NoLocalClass p)
    (he : Ends p s (catches.zipIdx.forM fun (c, index) =>
      w.catchClause callable stmt index c) u s') :
    Lays p stmt (catches.zipIdx.map fun (c, index) =>
      .row (.stmt .catchClause) (index : Int) (c.items p)) s s' :=
  lays_zipIdx_map (fun c hc _ _ _ _ he => lays_catchClause hw (hparts c hc) he) he

theorem lays_tryStatement (hw : w.LaysOut p callable) {result : Expr} {catches : List Catch}
    {finish : Option Expr} {u : Unit} (hnode : e.kind = .tryExpr result catches finish)
    (hclass : e.NoLocalClass p)
    (he : Ends p s (w.tryStatement callable e result catches finish slot) u s') :
    Lays p slot.parent [.part slot.isStatement slot.index e] s s' := by
  have hparts := hclass.parts hnode
  obtain ⟨slot', t, hslot, he⟩ := ends_bind.mp he
  obtain ⟨stmt, t₁, hrow, he⟩ := ends_bind.mp he
  obtain ⟨_, t₂, hresult, he⟩ := ends_bind.mp he
  obtain ⟨_, t₃, hcatches, he⟩ := ends_bind.mp he
  have hresult := lays_statementSlot hw (hparts result (by simp [ExprKind.parts])) hresult
  have hcatches := lays_catchClauses hw (fun c hc part hpart => hparts part
    (List.mem_append_left _ (List.mem_cons_of_mem _ (List.mem_flatMap.mpr ⟨c, hc, hpart⟩))))
    hcatches
  have hfinish : Lays p stmt (finish.toList.map (.part true (-2))) t₃ s' := by
    cases finish with
    | some last => exact lays_statementSlot hw (hparts last (by simp [ExprKind.parts])) he
    | none => exact lays_nil (plays_pure he)
  exact lays_stmtNode hw hnode rfl rfl rfl hslot hrow (hresult.append (hcatches.append hfinish))

theorem lays_branch (hw : w.LaysOut p callable) {id : Label} {index : Nat} {b : Branch}
    {u : Unit} (hcondition : b.condition.NoLocalClass p) (hresult : b.result.NoLocalClass p)
    (he : Ends p s (w.branch callable id index b) u s') :
    Lays p id [.row .branch (index : Int) b.items] s s' := by
  obtain ⟨row, t₁, hfresh, he⟩ := ends_bind.mp he
  obtain ⟨_, t₂, hrow, he⟩ := ends_bind.mp he
  obtain ⟨_, t₃, hplace, he⟩ := ends_bind.mp he
  obtain ⟨_, t₄, hfirst, he⟩ := ends_bind.mp he
  obtain ⟨_, t₅, hsecond, he⟩ := ends_bind.mp he
  have hend : t₅.Plays s' [] := by
    split at he
    · exact plays_write (by decide) (by decide) he
    · exact plays_pure he
  have hplays : s.Plays t₃ [.row ⟨.branch, row, id, index⟩] :=
    plays_of_fresh hfresh ((shows_fact (Trap.Fact.row?_whenBranch ..) rfl hrow).trans
      (shows_aside (scripted_locate row b.span) hplace))
  exact (lays_row hplays ((lays_expressionSlot hw hcondition hfirst).append
    (lays_statementSlot hw hresult hsecond))).then hend

theorem lays_whenExpr (hw : w.LaysOut p callable) {origin : Option StatementOrigin}
    {branches : List Branch} {u : Unit} (hnode : e.kind = .when origin branches)
    (hclass : e.NoLocalClass p)
    (he : Ends p s (w.whenExpr callable e origin branches slot) u s') :
    Lays p slot.parent [.part slot.isStatement slot.index e] s s' := by
  obtain ⟨slot', t, hslot, he⟩ := ends_bind.mp he
  obtain ⟨id, t₁, hrow, he⟩ := ends_bind.mp he
  rw [when_bind] at he
  obtain ⟨_, t₂, hif, he⟩ := ends_bind.mp he
  have hif : t₁.Plays t₂ [] := by
    split at hif
    · exact plays_write (by decide) (by decide) hif
    · exact plays_pure hif
  refine lays_exprNode hnode rfl rfl rfl hslot (plays_exprRow hw hrow)
    (.after hif (lays_zipIdx_map ?_ he))
  intro b hb i s u s' he
  have hmem {part : Expr} (h : part ∈ [b.condition, b.result]) : part.NoLocalClass p :=
    hclass.parts hnode part (List.mem_flatMap.mpr ⟨b, hb, h⟩)
  exact lays_branch hw (hmem (by simp)) (hmem (by simp)) he

/-! ## Values -/

theorem lays_constant (hw : w.LaysOut p callable) {value : ConstValue} {u : Unit}
    (hnode : e.kind = .const value) (he : Ends p s (w.constant callable e value slot) u s') :
    Lays p slot.parent [.part slot.isStatement slot.index e] s s' := by
  obtain ⟨slot', t, hslot, he⟩ := ends_bind.mp he
  obtain ⟨id, t₁, hrow, he⟩ := ends_bind.mp he
  refine lays_exprNode hnode rfl rfl rfl hslot (plays_exprRow hw hrow) (lays_nil ?_)
  split at he
  · exact plays_write (by decide) (by decide) he
  · exact plays_pure he

theorem lays_access (hw : w.LaysOut p callable) {node : ExprKind} {target : Extract Label}
    {u : Unit} (ht : Aside p target) (hnode : e.kind = node) (hloop : node.loop? = none)
    (hjump : node.jump? = none) (hkind : node.row? p s.currentFunction = some (.expr .varAccess))
    (hitems : node.items p = []) (hslot : Ends p s (asExpression callable e slot) slot' t)
    (he : Ends p t (do
      let id ← w.nodeRow callable .varAccess e slot'
      write (.variableBinding id (← target))) u s') :
    Lays p slot.parent [.part slot.isStatement slot.index e] s s' := by
  obtain ⟨id, t₁, hrow, he⟩ := ends_bind.mp he
  obtain ⟨l, t₂, htarget, he⟩ := ends_bind.mp he
  refine lays_exprNode hnode hloop hjump hkind hslot (plays_exprRow hw hrow) ?_
  rw [hitems]
  exact lays_nil ((plays_of_aside ht htarget).trans (plays_write (by decide) (by decide) he))

theorem lays_readMember (hw : w.LaysOut p callable) {node : ExprKind} {target : Extract Label}
    {u : Unit} (ht : Aside p target) (hnode : e.kind = node) (hloop : node.loop? = none)
    (hjump : node.jump? = none) (hkind : node.row? p s.currentFunction = some (.expr .varAccess))
    (hitems : node.items p = []) (he : Ends p s (w.readMember callable e target slot) u s') :
    Lays p slot.parent [.part slot.isStatement slot.index e] s s' := by
  obtain ⟨slot', t, hslot, he⟩ := ends_bind.mp he
  exact lays_access hw ht hnode hloop hjump hkind hitems hslot he

theorem lays_thisQualifier (hw : w.LaysOut p callable) {symbol owner : DeclId} {id : Label}
    {v : ValueParameterDecl} {d : Declaration} {u : Unit} (hdecl : p.decl? symbol = some d)
    (hparent : d.parent = .decl owner) (hkind : d.kind = .valueParameter v) (hv : v.index = -1)
    (he : Ends p s (w.thisQualifier callable e symbol owner id) u s') :
    Lays p id (p.receiverItems symbol) s s' := by
  obtain ⟨_, _, _, _⟩ := d
  obtain rfl := hparent
  obtain rfl := hkind
  have he := ends_read_bind.mp he
  simp only [Program.receiverItems, hdecl]
  split at he
  · next c howner =>
    simp only [howner, hv, true_and]
    split at he
    · next h =>
      obtain ⟨access, t, hrow, he⟩ := ends_bind.mp he
      rw [if_pos h]
      exact (lays_leaf (plays_exprRow hw hrow)).then (plays_pure he)
    · next h =>
      rw [if_neg h]
      exact lays_nil (plays_complainAt (by simp) he)
  · next f howner =>
    simp only [howner]
    split at he
    · exact lays_nil (plays_complainAt (by simp) he)
    · exact lays_nil (plays_pure he)
  · next hclass hfunction =>
    split
    · next c howner => exact absurd howner (hclass c)
    · exact lays_nil (plays_pure he)

theorem lays_readValue (hw : w.LaysOut p callable) {symbol : DeclId} {u : Unit}
    (hnode : e.kind = .getValue symbol) (he : Ends p s (w.readValue callable e symbol slot) u s') :
    Lays p slot.parent [.part slot.isStatement slot.index e] s s' := by
  obtain ⟨slot', t, hslot, he⟩ := ends_bind.mp he
  have he := ends_read_bind.mp he
  have hvalue := aside_value hw.toStable symbol
  split at he
  · next parent _ _ v hdecl =>
    split at he
    · next hv =>
      obtain ⟨id, t₁, hrow, he⟩ := ends_bind.mp he
      have hreceiver : p.isReceiver symbol = true := by simp [Program.isReceiver, hdecl, hv]
      refine lays_exprNode hnode rfl rfl (by simp [ExprKind.row?, hreceiver]) hslot
        (plays_exprRow hw hrow) ?_
      cases parent with
      | decl owner => exact lays_thisQualifier hw hdecl rfl rfl hv he
      | _ =>
        simp only [ExprKind.items, Program.receiverItems, hdecl]
        exact lays_nil (plays_pure he)
    · next hv =>
      have hreceiver : p.isReceiver symbol = false := by simp [Program.isReceiver, hdecl, hv]
      refine lays_access hw hvalue hnode rfl rfl (by simp [ExprKind.row?, hreceiver]) ?_ hslot he
      simp only [ExprKind.items, Program.receiverItems, hdecl]
      grind
  · next hdecl =>
    have hreceiver : p.isReceiver symbol = false := by
      unfold Program.isReceiver
      split
      · next h => exact absurd h (hdecl _ _ _ _)
      · rfl
    refine lays_access hw hvalue hnode rfl rfl (by simp [ExprKind.row?, hreceiver]) ?_ hslot he
    simp only [ExprKind.items, Program.receiverItems]
    split
    · next h => exact absurd h (hdecl _ _ _ _)
    · rfl

theorem lays_assignment (hw : w.LaysOut p callable) {value : Expr} {id : DeclId}
    {target : Extract Label} {u : Unit} (ht : Aside p target)
    (hnode : e.kind = .setValue id value ∨ e.kind = .setField id value) (hclass : e.NoLocalClass p)
    (he : Ends p s (w.assignment callable e id target value slot) u s') :
    Lays p slot.parent [.part slot.isStatement slot.index e] s s' := by
  have hvalue : value.NoLocalClass p := by
    rcases hnode with hnode | hnode <;> exact hclass.parts hnode value (by simp [ExprKind.parts])
  obtain ⟨slot', t, hslot, he⟩ := ends_bind.mp he
  obtain ⟨l, t₁, htarget, he⟩ := ends_bind.mp he
  obtain ⟨row, t₂, hrow, he⟩ := ends_bind.mp he
  obtain ⟨left, t₃, hleft, he⟩ := ends_bind.mp (ends_read_bind.mp he)
  obtain ⟨_, t₄, hbinding, he⟩ := ends_bind.mp he
  have hrow := (plays_of_aside ht htarget).trans (plays_exprRow hw hrow)
  have hleft := (plays_exprRow hw hleft).then (plays_write (by decide) (by decide) hbinding)
  have hitems := (lays_leaf hleft).append (lays_expressionSlot hw hvalue he)
  rcases hnode with hnode | hnode <;>
    exact lays_exprNode hnode rfl rfl rfl hslot hrow hitems

theorem lays_typeOperation (hw : w.LaysOut p callable) {argument : Expr} {operator : TypeOperator}
    {operand : IrType} {u : Unit} (hnode : e.kind = .typeOperator operator operand argument)
    (hclass : e.NoLocalClass p)
    (he : Ends p s (w.typeOperation callable e operator operand argument slot) u s') :
    Lays p slot.parent [.part slot.isStatement slot.index e] s s' := by
  unfold typeOperation at he
  split at he
  · next hoperator =>
    exact lays_skip (by simp [hnode, ExprKind.row?, hoperator]) (plays_complainAt (by simp) he)
  · next kind hoperator =>
    obtain ⟨slot', t, hslot, he⟩ := ends_bind.mp he
    obtain ⟨id, t₁, hrow, he⟩ := ends_bind.mp he
    obtain ⟨access, t₂, haccess, he⟩ := ends_bind.mp he
    have hargument := hclass.parts hnode argument (by simp [ExprKind.parts])
    have hitems := (lays_leaf (plays_exprRow hw haccess)).append
      (lays_expressionSlot hw hargument he)
    refine lays_exprNode hnode rfl rfl (by simp [ExprKind.row?, hoperator]) hslot
      (plays_exprRow hw hrow) ?_
    by_cases hcast : kind = .cast <;>
      simpa [ExprKind.items, TypeOperator.items, hoperator, hcast] using hitems

theorem lays_objectValue (hw : w.LaysOut p callable) {id : DeclId} {u : Unit}
    (hnode : e.kind = .getObjectValue id)
    (he : Ends p s (w.objectValue callable e id slot) u s') :
    Lays p slot.parent [.part slot.isStatement slot.index e] s s' := by
  obtain ⟨slot', t, hslot, he⟩ := ends_bind.mp he
  obtain ⟨row, t₁, hrow, he⟩ := ends_bind.mp he
  refine lays_exprNode hnode rfl rfl rfl hslot (plays_exprRow hw hrow) (lays_nil ?_)
  have he := ends_read_bind.mp he
  split at he
  · exact plays_complainAt (by simp) he
  · split at he
    · obtain ⟨found, t₂, hfound, he⟩ := ends_bind.mp he
      have hplays := plays_of_aside (asks_companionField? hw.toStable id).aside hfound
      split at he
      · exact hplays.trans (plays_write (by decide) (by decide) he)
      · exact hplays.trans (plays_pure he)
    · obtain ⟨field, t₂, hfield, he⟩ := ends_bind.mp he
      exact (plays_of_aside (asks_objectField hw.toStable id).aside hfield).trans
        (plays_write (by decide) (by decide) he)

theorem lays_compound (hw : w.LaysOut p callable) {node : ExprKind} {kind : Trap.ExprKind}
    {parts : List Expr} {u : Unit} (hnode : e.kind = node) (hloop : node.loop? = none)
    (hjump : node.jump? = none) (hkind : node.row? p s.currentFunction = some (.expr kind))
    (hitems : node.items p = parts.zipIdx.map fun (a, k) => .part false (k : Int) a)
    (hparts : ∀ part ∈ parts, part.NoLocalClass p)
    (he : Ends p s (w.compound callable kind e parts slot) u s') :
    Lays p slot.parent [.part slot.isStatement slot.index e] s s' := by
  obtain ⟨slot', t, hslot, he⟩ := ends_bind.mp he
  obtain ⟨id, t₁, hrow, he⟩ := ends_bind.mp he
  refine lays_exprNode hnode hloop hjump hkind hslot (plays_exprRow hw hrow) ?_
  rw [hitems]
  exact lays_zipIdx_map (fun part hpart i s u s' he =>
    lays_expressionSlot hw (hparts part hpart) he) he

theorem lays_vararg (hw : w.LaysOut p callable) {elements : List VarargElement} {u : Unit}
    (hnode : e.kind = .vararg elements) (hclass : e.NoLocalClass p)
    (he : Ends p s (w.vararg callable e elements slot) u s') :
    Lays p slot.parent [.part slot.isStatement slot.index e] s s' := by
  obtain ⟨slot', t, hslot, he⟩ := ends_bind.mp he
  obtain ⟨id, t₁, hrow, he⟩ := ends_bind.mp he
  refine lays_exprNode hnode rfl rfl rfl hslot (plays_exprRow hw hrow) (lays_zipIdx ?_ he)
  intro element helement i s u s' he
  cases element with
  | expr e =>
    have hpart := hclass.parts hnode e
      (List.mem_flatMap.mpr ⟨_, helement, List.mem_singleton_self e⟩)
    exact lays_expressionSlot hw hpart he
  | spread e => exact lays_nil (plays_complainAt (by simp) he)

/-! ## The step of an expression -/

theorem lays_expressionStep (hw : w.LaysOut p callable) {u : Unit} (hclass : e.NoLocalClass p)
    (he : Ends p s (w.expressionStep callable slot e) u s') :
    Lays p slot.parent [.part slot.isStatement slot.index e] s s' := by
  have hπ := hw.toStable
  have hfield (id : DeclId) : Aside p (w.field id) :=
    (asks_member hπ (by decide) id).aside
  have hparts := hclass.parts rfl
  obtain ⟨span, type, kind⟩ := e
  cases kind with
  | call c => exact lays_call hw rfl hclass he
  | constructorCall c => exact lays_constructorCall hw (.inl rfl) hclass he
  | enumConstructorCall c => exact lays_constructorCall hw (.inr rfl) hclass he
  | delegatingConstructorCall c => exact lays_delegatingCall hw rfl hclass he
  | instanceInitializerCall id => exact lays_initializerCall hw rfl he
  | throwExpr value =>
    have hvalue := hparts value (List.mem_singleton_self _)
    exact lays_simpleStatement hw rfl rfl rfl rfl rfl hvalue he
  | returnExpr value =>
    have hvalue := hparts value (List.mem_singleton_self _)
    exact lays_simpleStatement hw rfl rfl rfl rfl rfl hvalue he
  | breakExpr jump => exact lays_jump hw (.inl ⟨rfl, rfl⟩) he
  | continueExpr jump => exact lays_jump hw (.inr ⟨rfl, rfl⟩) he
  | tryExpr result catches finish => exact lays_tryStatement hw rfl hclass he
  | block statements => exact lays_block hw rfl hclass he
  | whileLoop loop => exact lays_loop hw (.inl ⟨rfl, rfl⟩) hclass he
  | doWhileLoop loop => exact lays_loop hw (.inr ⟨rfl, rfl⟩) hclass he
  | stringConcatenation arguments => exact lays_compound hw rfl rfl rfl rfl rfl hparts he
  | const value => exact lays_constant hw rfl he
  | getValue symbol => exact lays_readValue hw rfl he
  | getField field => exact lays_readMember hw (hfield field) rfl rfl rfl rfl rfl he
  | getEnumValue entry => exact lays_readMember hw (hfield entry) rfl rfl rfl rfl rfl he
  | setValue symbol value => exact lays_assignment hw (aside_value hπ symbol) (.inl rfl) hclass he
  | setField field value => exact lays_assignment hw (hfield field) (.inr rfl) hclass he
  | «when» origin branches => exact lays_whenExpr hw rfl hclass he
  | getClass argument => exact lays_compound hw rfl rfl rfl rfl rfl hparts he
  | typeOperator operator operand argument => exact lays_typeOperation hw rfl hclass he
  | vararg elements => exact lays_vararg hw rfl hclass he
  | getObjectValue id => exact lays_objectValue hw rfl he
  | unsupported description => exact lays_skip rfl (plays_complainAt (by simp) he)

theorem laysOut_walk (p : Program) (typeFuel walkFuel : Nat) (callable : Label) :
    (walk (projection typeFuel) walkFuel).LaysOut p callable := by
  induction walkFuel with
  | zero => exact ⟨stable_projection p typeFuel, fun _ _ _ _ _ _ he => absurd he ends_throw⟩
  | succ walkFuel ih =>
    exact ⟨stable_projection p typeFuel, fun _ hclass _ _ _ _ he =>
      lays_expressionStep ih hclass he⟩

end Walk

end IrFacts
