import IrFacts.Proofs.Code.Played

/-!
# Expressions are laid out

A session that writes an expression plays the cues that the expression should
have. For every construct the rows that it writes itself are matched with its
layout, and its parts are laid out under them.
-/

set_option autoImplicit false

namespace IrFacts

/-! ## Local classes -/

/-- Nothing that the expression reaches contains a local class. -/
def Expr.NoLocalClass (p : Program) (e : Expr) : Prop :=
  ∀ other, e.Reaches p other → ∀ s ∈ other.kind.statements, s.isLocalClass p = false

theorem Expr.NoLocalClass.part {p : Program} {e part : Expr} (h : e.NoLocalClass p)
    (hpart : part ∈ e.kind.parts p) : part.NoLocalClass p :=
  fun other ho => h other (.part hpart ho)

theorem Expr.NoLocalClass.parts {p : Program} {e : Expr} {kind : ExprKind}
    (h : e.NoLocalClass p) (hkind : e.kind = kind) : ∀ part ∈ kind.parts p, part.NoLocalClass p :=
  fun _ hpart => h.part (hkind ▸ hpart)

/-! ## Sessions that lay out items -/

namespace Session

/-- Between `s` and `t` the items under `parent` were laid out, and nothing else. -/
def Lays (p : Program) (parent : Label) (items : List Item) (s t : Session) : Prop :=
  ∀ loops, ∃ cues leaps,
    Laid p s.currentFunction loops parent items cues leaps ∧ s.Plays t cues

variable {p : Program} {parent id : Label} {items rest : List Item} {s t u v : Session}

theorem lays_nil (h : s.Plays t []) : Lays p parent [] s t :=
  fun loops => ⟨[], [], .nil loops parent, h⟩

theorem Lays.after (h : s.Plays t []) (k : Lays p parent items t u) :
    Lays p parent items s u := by
  intro loops
  obtain ⟨cues, leaps, hlaid, hplays⟩ := k loops
  rw [h.current] at hlaid
  exact ⟨cues, leaps, hlaid, h.trans hplays⟩

theorem Lays.then (h : Lays p parent items s t) (k : t.Plays u []) :
    Lays p parent items s u := by
  intro loops
  obtain ⟨cues, leaps, hlaid, hplays⟩ := h loops
  exact ⟨cues, leaps, hlaid, hplays.then k⟩

theorem Lays.append (h : Lays p parent items s t) (k : Lays p parent rest t u) :
    Lays p parent (items ++ rest) s u := by
  intro loops
  obtain ⟨cues, leaps, hlaid, hplays⟩ := h loops
  obtain ⟨more, others, klaid, kplays⟩ := k loops
  rw [hplays.current] at klaid
  exact ⟨cues ++ more, leaps ++ others, hlaid.append klaid, hplays.trans kplays⟩

theorem lays_row {kind : RowKind} {index : Int} (h : s.Plays t [.row ⟨kind, id, parent, index⟩])
    (k : Lays p id items t u) : Lays p parent [.row kind index items] s u := by
  intro loops
  obtain ⟨cues, leaps, hlaid, hplays⟩ := k loops
  rw [h.current] at hlaid
  refine ⟨_, _, .row hlaid (.nil loops parent), ?_⟩
  rw [List.append_nil]
  exact h.trans hplays

theorem lays_leaf {kind : RowKind} {index : Int} (h : s.Plays t [.row ⟨kind, id, parent, index⟩]) :
    Lays p parent [.row kind index []] s t := lays_row h (lays_nil (.refl t))

def Slotted (kinds : List RowKind) (slot slot' : Slot) (s t : Session) : Prop :=
  ∃ rows : List Row, Nested kinds slot.parent slot.index rows slot'.parent slot'.index ∧
    s.Plays t (rows.map .row)

variable {kinds others : List RowKind} {slot slot' slot'' : Slot}

theorem slotted_nil (h : s.Plays t []) : Slotted [] slot slot s t :=
  ⟨[], .nil _ _, h⟩

theorem slotted_row {kind : RowKind} (h : s.Plays t [.row ⟨kind, id, slot.parent, slot.index⟩])
    (isStatement : Bool) : Slotted [kind] slot ⟨isStatement, id, 0⟩ s t :=
  ⟨[⟨kind, id, slot.parent, slot.index⟩], .cons (.nil id 0), h⟩

theorem Slotted.trans (h : Slotted kinds slot slot' s t) (k : Slotted others slot' slot'' t u) :
    Slotted (kinds ++ others) slot slot'' s u := by
  obtain ⟨rows, hnested, hplays⟩ := h
  obtain ⟨more, knested, kplays⟩ := k
  refine ⟨rows ++ more, hnested.append knested, ?_⟩
  rw [List.map_append]
  exact hplays.trans kplays

theorem Slotted.current (h : Slotted kinds slot slot' s t) :
    t.currentFunction = s.currentFunction := by
  obtain ⟨_, _, hplays⟩ := h
  exact hplays.current

/-- An expression in a slot: the rows around its own, its own row, and what is
met when all that stands under it is laid out. -/
theorem lays_part {e : Expr} {kind : RowKind}
    (hkind : e.kind.row? p s.currentFunction = some kind)
    (hslot : Slotted (e.kind.wrappers slot.isStatement kind) slot slot' s t)
    (hrow : t.Plays u [.row ⟨kind, id, slot'.parent, slot'.index⟩])
    (hitems : ∀ loops, ∃ cues leaps,
      Laid p u.currentFunction loops id (e.kind.items p) cues leaps ∧
        u.Plays v (e.kind.around id cues)) :
    Lays p slot.parent [.part slot.isStatement slot.index e] s v := by
  intro loops
  obtain ⟨rows, hnested, hrows⟩ := hslot
  obtain ⟨cues, leaps, hlaid, hplays⟩ := hitems (e.kind.scope id loops)
  rw [hrow.current, hrows.current] at hlaid
  refine ⟨_, _, .part hkind hnested hlaid (.nil loops _), ?_⟩
  rw [List.append_nil]
  exact hrows.trans (hrow.trans hplays)

/-- The same of an expression that is no loop and no jump. -/
theorem lays_plain {e : Expr} {kind : RowKind} (hloop : e.kind.loop? = none)
    (hjump : e.kind.jump? = none) (hkind : e.kind.row? p s.currentFunction = some kind)
    (hslot : Slotted (e.kind.wrappers slot.isStatement kind) slot slot' s t)
    (hrow : t.Plays u [.row ⟨kind, id, slot'.parent, slot'.index⟩])
    (hitems : Lays p id (e.kind.items p) u v) :
    Lays p slot.parent [.part slot.isStatement slot.index e] s v := by
  refine lays_part hkind hslot hrow fun loops => ?_
  obtain ⟨cues, leaps, hlaid, hplays⟩ := hitems loops
  exact ⟨cues, leaps, hlaid, by rwa [ExprKind.around_of_plain hloop hjump]⟩

theorem lays_skip {e : Expr} (hkind : e.kind.row? p s.currentFunction = none)
    (h : s.Plays t []) : Lays p slot.parent [.part slot.isStatement slot.index e] s t :=
  fun loops => ⟨[], [], .skip hkind (.nil loops _), h⟩

end Session

/-- Everything that a walk writes of an expression is laid out in its slot. -/
structure Walk.LaysOut (p : Program) (w : Walk) (callable : Label) : Prop
    extends Extract.Stable p w.toProjection where
  expression : ∀ e : Expr, e.NoLocalClass p → ∀ s slot u s',
    Extract.Ends p s (w.expression callable slot e) u s' →
      Session.Lays p slot.parent [.part slot.isStatement slot.index e] s s'

namespace Walk

open Extract Session

variable {p : Program} {w : Walk} {callable parent : Label} {slot slot' : Slot}
  {s s' t : Session}

/-! ## Rows -/

theorem shows_fact {f : Trap.Fact} {r : Row} {u : Unit} (hrow : f.row? = some r)
    (hleap : f.leap? = none) (he : Ends p s (write f) u s') : s.Shows s' [.row r] := by
  obtain rfl := ends_write.mp he
  refine shows_step ?_ ?_ rfl rfl fun h => ⟨h, rfl⟩
  · simp [Event.lines, Trap.Line.row?, hrow, Cue.rows, Cue.row?]
  · simp [Event.lines, Trap.Line.leap?, hleap, Cue.jumps, Cue.jump?, Cue.told]

theorem plays_of_fresh {r : Row} (hfresh : Ends p s fresh r.id t) (hrow : t.Shows s' [.row r]) :
    s.Plays s' [.row r] := by
  obtain ⟨hid, rfl⟩ := ends_fresh.mp hfresh
  have hshows : s.Shows (Event.fresh.step s) [] := shows_aside (p := p) trivial
  refine ⟨hshows.trans hrow, .cons hid (Nat.le_refl _) (.nil ?_)⟩
  have hnext := hrow.next
  rwa [Event.step_table] at hnext

theorem shows_aside {α : Type} {m : Extract α} {a : α} (hm : Aside p m) (he : Ends p s m a s') :
    s.Shows s' [] := (plays_of_aside hm he).toShows

theorem shows_writeExpr {id type richType : Label} {kind : Trap.ExprKind} {index : Int} {u : Unit}
    (he : Ends p s (writeExpr id kind type richType parent index) u s') :
    s.Shows s' [.row ⟨.expr kind, id, parent, index⟩] := by
  obtain ⟨_, t, hrow, he⟩ := ends_bind.mp he
  exact (shows_fact (Trap.Fact.row?_exprs ..) rfl hrow).trans
    (shows_aside (aside_write (by decide) (by decide)) he)

theorem plays_exprRow (hw : w.LaysOut p callable) {kind : Trap.ExprKind} {type : IrType}
    {span : Span} {index : Int} {id : Label}
    (he : Ends p s (w.exprRow callable kind type span parent index) id s') :
    s.Plays s' [.row ⟨.expr kind, id, parent, index⟩] := by
  obtain ⟨id, t₁, hfresh, he⟩ := ends_bind.mp he
  obtain ⟨views, t₂, htype, he⟩ := ends_bind.mp he
  obtain ⟨_, t₃, hrow, he⟩ := ends_bind.mp he
  obtain ⟨_, t₄, hplace, he⟩ := ends_bind.mp he
  obtain ⟨_, t₅, hcall, he⟩ := ends_bind.mp he
  obtain ⟨rfl, rfl⟩ := ends_pure.mp he
  have hplace := shows_aside (scripted_locate id span) hplace
  have hcall := shows_aside (aside_write (by decide) (by decide)) hcall
  exact plays_of_fresh hfresh ((shows_aside (hw.asksType true type).aside htype).trans
    ((shows_writeExpr hrow).trans (hplace.trans hcall)))

theorem plays_stmtRow {kind : Trap.StmtKind} {span : Span} {id : Label}
    (he : Ends p s (stmtRow callable kind span slot) id s') :
    s.Plays s' [.row ⟨.stmt kind, id, slot.parent, slot.index⟩] := by
  obtain ⟨id, t₁, hfresh, he⟩ := ends_bind.mp he
  obtain ⟨_, t₂, hrow, he⟩ := ends_bind.mp he
  obtain ⟨_, t₃, hplace, he⟩ := ends_bind.mp he
  obtain ⟨rfl, rfl⟩ := ends_pure.mp he
  exact plays_of_fresh hfresh ((shows_fact (Trap.Fact.row?_stmts ..) rfl hrow).trans
    (shows_aside (scripted_locate id span) hplace))

theorem slotted_asExpression {e : Expr} (he : Ends p s (asExpression callable e slot) slot' s') :
    Slotted (if slot.isStatement then [.stmt .exprStmt] else []) slot slot' s s' := by
  unfold asExpression at he
  split at he
  · next h =>
    obtain ⟨id, t, hrow, he⟩ := ends_bind.mp he
    obtain ⟨rfl, rfl⟩ := ends_pure.mp he
    rw [if_pos h]
    exact slotted_row (plays_stmtRow hrow) false
  · next h =>
    obtain ⟨rfl, rfl⟩ := ends_pure.mp he
    rw [if_neg h]
    exact slotted_nil (.refl _)

theorem slotted_asStatement (hw : w.LaysOut p callable) {e : Expr}
    (he : Ends p s (w.asStatement callable e slot) slot' s') :
    Slotted (if slot.isStatement then [] else [.expr .stmtExpr]) slot slot' s s' := by
  unfold asStatement at he
  split at he
  · next h =>
    obtain ⟨rfl, rfl⟩ := ends_pure.mp he
    rw [if_pos h]
    exact slotted_nil (.refl _)
  · next h =>
    obtain ⟨id, t, hrow, he⟩ := ends_bind.mp he
    obtain ⟨rfl, rfl⟩ := ends_pure.mp he
    rw [if_neg h]
    exact slotted_row (plays_exprRow hw hrow) true

theorem lays_exprNode {e : Expr} {node : ExprKind} {kind : Trap.ExprKind} {id : Label}
    {u v : Session} (hnode : e.kind = node) (hloop : node.loop? = none) (hjump : node.jump? = none)
    (hkind : node.row? p s.currentFunction = some (.expr kind))
    (hslot : Ends p s (asExpression callable e slot) slot' t)
    (hrow : t.Plays u [.row ⟨.expr kind, id, slot'.parent, slot'.index⟩])
    (hitems : Lays p id (node.items p) u v) :
    Lays p slot.parent [.part slot.isStatement slot.index e] s v := by
  subst hnode
  refine lays_plain hloop hjump hkind ?_ hrow hitems
  have hwrappers : e.kind.wrappers slot.isStatement (.expr kind) =
      if slot.isStatement then [.stmt .exprStmt] else [] := by
    simp only [ExprKind.wrappers, RowKind.isStatement, hloop]
    cases slot.isStatement <;> rfl
  rw [hwrappers]
  exact slotted_asExpression hslot

theorem wrappers_statement {kind : ExprKind} (row : Trap.StmtKind) (isStatement : Bool) :
    kind.wrappers isStatement (.stmt row) =
      (if isStatement then [] else [.expr .stmtExpr]) ++
        (kind.loop?.bind (·.label)).toList.map fun _ => .stmt .labeled := by
  cases isStatement <;> rfl

theorem lays_stmtNode (hw : w.LaysOut p callable) {e : Expr} {node : ExprKind}
    {kind : Trap.StmtKind} {id : Label} {span : Span} {u v : Session} (hnode : e.kind = node)
    (hloop : node.loop? = none) (hjump : node.jump? = none)
    (hkind : node.row? p s.currentFunction = some (.stmt kind))
    (hslot : Ends p s (w.asStatement callable e slot) slot' t)
    (hrow : Ends p t (stmtRow callable kind span slot') id u)
    (hitems : Lays p id (node.items p) u v) :
    Lays p slot.parent [.part slot.isStatement slot.index e] s v := by
  subst hnode
  refine lays_plain hloop hjump hkind ?_ (plays_stmtRow hrow) hitems
  rw [wrappers_statement, hloop]
  simpa using slotted_asStatement hw hslot

theorem lays_expressionSlot (hw : w.LaysOut p callable) {e : Expr} {index : Int} {u : Unit}
    (hclass : e.NoLocalClass p) (he : Ends p s (w.expressionSlot callable parent index e) u s') :
    Lays p parent [.part false index e] s s' :=
  hw.expression e hclass s (.expression parent index) u s' he

theorem lays_statementSlot (hw : w.LaysOut p callable) {e : Expr} {index : Int} {u : Unit}
    (hclass : e.NoLocalClass p) (he : Ends p s (w.statementSlot callable parent index e) u s') :
    Lays p parent [.part true index e] s s' :=
  hw.expression e hclass s (.statement parent index) u s' he

theorem lays_zipIdx {α : Type} {as : List α} {k : Nat} {items : α × Nat → List Item}
    {f : α × Nat → Extract PUnit} {u : PUnit}
    (hf : ∀ a ∈ as, ∀ i s u s', Ends p s (f (a, i)) u s' → Lays p parent (items (a, i)) s s')
    (he : Ends p s ((as.zipIdx k).forM f) u s') :
    Lays p parent ((as.zipIdx k).flatMap items) s s' := by
  induction as generalizing s k with
  | nil => exact lays_nil (plays_pure he)
  | cons a as ih =>
    obtain ⟨_, t, ha, hrest⟩ := ends_bind.mp he
    rw [List.zipIdx_cons, List.flatMap_cons]
    exact (hf a List.mem_cons_self k s _ t ha).append
      (ih (fun b hb => hf b (List.mem_cons_of_mem _ hb)) hrest)

theorem lays_zipIdx_map {α : Type} {as : List α} {item : α × Nat → Item}
    {f : α × Nat → Extract PUnit} {u : PUnit}
    (hf : ∀ a ∈ as, ∀ i s u s', Ends p s (f (a, i)) u s' → Lays p parent [item (a, i)] s s')
    (he : Ends p s (as.zipIdx.forM f) u s') : Lays p parent (as.zipIdx.map item) s s' := by
  rw [List.map_eq_flatMap]
  exact lays_zipIdx hf he

/-! ## Variables and statements -/

theorem lays_variableExpr (hw : w.LaysOut p callable) {id : DeclId} {index : Int} {u : Unit}
    (hclass : ∀ e ∈ p.initializer id, e.NoLocalClass p)
    (he : Ends p s (w.variableExpr callable id parent index) u s') :
    Lays p parent (p.variableItems id index) s s' := by
  have he := ends_read_bind.mp he
  split at he
  · next span v hdecl =>
    have hkind : p.kind? id = some (.variable v) := by rw [Program.kind?, hdecl]; rfl
    obtain ⟨variableLabel, t₁, hvariable, he⟩ := ends_bind.mp he
    obtain ⟨expr, t₂, hfresh, he⟩ := ends_bind.mp he
    obtain ⟨views, t₃, htype, he⟩ := ends_bind.mp he
    obtain ⟨place, t₄, hplace, he⟩ := ends_bind.mp he
    obtain ⟨_, t₅, hlocal, he⟩ := ends_bind.mp he
    obtain ⟨_, t₆, hat, he⟩ := ends_bind.mp he
    obtain ⟨_, t₇, hrow, he⟩ := ends_bind.mp he
    obtain ⟨_, t₈, hat', he⟩ := ends_bind.mp he
    obtain ⟨_, t₉, hcall, he⟩ := ends_bind.mp he
    have hbefore := ((shows_aside (hw.asksType true v.type).aside htype).trans
      (shows_aside (scripted_location span) hplace)).trans
      ((shows_aside (aside_write (by decide) (by decide)) hlocal).trans
        (shows_aside (aside_write (by decide) (by decide)) hat))
    have hafter := (shows_aside (aside_write (by decide) (by decide)) hat').trans
      (shows_aside (aside_write (by decide) (by decide)) hcall)
    have hplays : t₁.Plays t₉ [.row ⟨.expr .localVariableDecl, expr, parent, index⟩] :=
      plays_of_fresh hfresh (hbefore.trans ((shows_writeExpr hrow).trans hafter))
    have hinitializer : Lays p expr (v.initializer.toList.map (.part false 0)) t₉ s' := by
      cases hinit : v.initializer with
      | none =>
        rw [hinit] at he
        exact lays_nil (plays_pure he)
      | some e =>
        rw [hinit] at he
        have hmem : e ∈ p.initializer id := by simp [Program.initializer, hkind, hinit]
        exact lays_expressionSlot hw (hclass e hmem) he
    simp only [Program.variableItems, hkind]
    exact .after (plays_of_aside (aside_localVariable id) hvariable) (lays_row hplays hinitializer)
  · next hdecl =>
    have hitems : p.variableItems id index = [] := by
      unfold Program.variableItems Program.kind?
      split
      · next v hv =>
        obtain ⟨⟨_, _, span, _⟩, hd, rfl⟩ := Option.map_eq_some_iff.mp hv
        exact absurd hd (hdecl _ _ _ _)
      · rfl
    rw [hitems]
    exact lays_nil (plays_complain (by simp) he)

theorem lays_variableStatement (hw : w.LaysOut p callable) {id : DeclId} {index : Int} {u : Unit}
    (hclass : ∀ e ∈ p.initializer id, e.NoLocalClass p)
    (he : Ends p s (w.variableStatement callable id (.statement parent index)) u s') :
    Lays p parent [.row (.stmt .localVariableDecl) index (p.variableItems id 1)] s s' := by
  obtain ⟨stmt, t, hrow, he⟩ := ends_bind.mp (ends_read_bind.mp he)
  exact lays_row (plays_stmtRow hrow) (lays_variableExpr hw hclass he)

theorem plays_localDeclaration {id : DeclId} {u : Unit} (hclass : p.isClass id = false)
    (he : Ends p s (w.localDeclaration callable id slot) u s') : s.Plays s' [] := by
  have he := ends_read_bind.mp he
  split at he
  · exact plays_complain (by simp) he
  · next hdecl => simp [Program.isClass, Program.class?, hdecl] at hclass
  · exact plays_complainAt (by simp) he

theorem lays_statement (hw : w.LaysOut p callable) {index : Int} {code : Statement} {u : Unit}
    (hparts : ∀ e ∈ code.parts p, e.NoLocalClass p) (hlocal : code.isLocalClass p = false)
    (he : Ends p s (w.statement callable parent index code) u s') :
    Lays p parent (code.items p index) s s' := by
  cases code with
  | expr e => exact lays_statementSlot hw (hparts e (by simp [Statement.parts])) he
  | «variable» id => exact lays_variableStatement hw hparts he
  | declaration id => exact lays_nil (plays_localDeclaration hlocal he)

theorem lays_block (hw : w.LaysOut p callable) {e : Expr} {statements : List Statement}
    {u : Unit} (hkind : e.kind = .block statements) (hclass : e.NoLocalClass p)
    (he : Ends p s (w.block callable e statements slot) u s') :
    Lays p slot.parent [.part slot.isStatement slot.index e] s s' := by
  obtain ⟨slot', t, hslot, he⟩ := ends_bind.mp he
  obtain ⟨block, t', hrow, he⟩ := ends_bind.mp he
  have hlocal := hclass e (.refl e)
  rw [hkind] at hlocal
  refine lays_stmtNode hw hkind rfl rfl rfl hslot hrow (lays_zipIdx ?_ he)
  intro code hcode i s u s' he
  refine lays_statement hw (fun part hpart => ?_) (hlocal code hcode) he
  exact hclass.parts hkind part (List.mem_flatMap.mpr ⟨code, hcode, hpart⟩)

end Walk

end IrFacts
