import IrFacts.Proofs.Code.Located
import IrFacts.Proofs.Run.ReadDeclarations

/-!
# Every expression is located

Each construct of code writes its rows with their places, and leaves the rest to its parts.
Projection and statements may only locate labels that are not of expressions. So of all that is
written of an expression, whatever is nested in it, each row is located once, but for the type
arguments of calls.
-/

set_option autoImplicit false

namespace IrFacts

open Trap Session

namespace Extract

variable {α β : Type} {p : Program} {ls : List Line} {s : Session}

/-! ## Actions that locate what they draw -/

/-- Every completed run of the action locates the rows that it draws, and `Q` holds of its
result and of the lines after it. -/
def Maps (p : Program) (ls : List Line) (s : Session) (m : Extract α)
    (Q : α → List Line → Session → Prop) : Prop :=
  Mapped ls s → ∀ a t, Ends p s m a t → ∃ ls', Continues ls ls' s t ∧ Mapped ls' t ∧ Q a ls' t

abbrev Anyhow {α : Type} : α → List Line → Session → Prop := fun _ _ _ => True

/-- The label was handed out, and not for a row. -/
abbrev Seen (l : Label) (ls : List Line) (s : Session) : Prop := s.Visible (rowNumbers ls) l

variable {Q : α → List Line → Session → Prop} {R : β → List Line → Session → Prop}

theorem maps_pure {a : α} (h : Q a ls s) : Maps p ls s (pure a) Q := by
  intro hs b t he
  obtain ⟨rfl, rfl⟩ := ends_pure.mp he
  exact ⟨ls, .refl ls t, hs, h⟩

theorem maps_bind {m : Extract α} {f : α → Extract β} (hm : Maps p ls s m Q)
    (hf : ∀ a ls' t, Continues ls ls' s t → Q a ls' t → Maps p ls' t (f a) R) :
    Maps p ls s (m >>= f) R := by
  intro hs b v he
  obtain ⟨a, t, ha, hb⟩ := ends_bind.mp he
  obtain ⟨ls₁, h₁, ht, hq⟩ := hm hs a t ha
  obtain ⟨ls₂, h₂, hv, hr⟩ := hf a ls₁ t h₁ hq ht b v hb
  exact ⟨ls₂, h₁.trans h₂, hv, hr⟩

theorem Maps.imp {m : Extract α} {R : α → List Line → Session → Prop} (h : Maps p ls s m Q)
    (hi : ∀ a ls' t, Continues ls ls' s t → Q a ls' t → R a ls' t) : Maps p ls s m R := by
  intro hs a t he
  obtain ⟨ls', hnext, ht, hq⟩ := h hs a t he
  exact ⟨ls', hnext, ht, hi a ls' t hnext hq⟩

theorem maps_get {f : Session → Extract β} (h : Seen s.file.target.label ls s →
    Maps p ls s (f s) R) : Maps p ls s (get >>= f) R := by
  intro hs b t he
  have htarget : s.file.target.label ∈ s.remembered := by simp [remembered]
  exact h (hs.hides.visible _ htarget) hs b t (ends_get_bind.mp he)

/-! ## Actions that draw nothing -/

/-- The scope of what draws nothing from here on. -/
abbrev blank (ls : List Line) (s : Session) : Scope := .rowless (rowNumbers ls) s.table.next

theorem blank_allows : (blank ls s).Allows p := Scope.rowless_allows p

theorem blank_covers {typeFuel : Nat} : (blank ls s).Covers p (projection typeFuel) :=
  Scope.rowless_covers p typeFuel

theorem knows_of_seen {l : Label} (h : Seen l ls s) : (blank ls s).Knows s l := .inl (.inr h)

/-- What such an action knows afterwards is not the label of a row. -/
theorem maps_does {m : Extract α} {Q : α → Session → Prop} (hm : (blank ls s).Does p s m Q) :
    Maps p ls s m fun a ls' t => Q a t ∧ ∀ l, (blank ls s).Knows t l → Seen l ls' t := by
  intro hs a t he
  obtain ⟨hdraws, hq⟩ := draws_of_does hs.hides hm he
  obtain ⟨ls', hnext, ht, hsame⟩ := hs.pass hdraws
  have hnumbers : rowNumbers ls' = rowNumbers ls := by
    rw [rowNumbers, expressionIds, hsame]
    rfl
  refine ⟨ls', hnext, ht, hq, fun l hl => ?_⟩
  rw [Seen, hnumbers]
  exact Scope.visible_of_knows hs.hides hdraws.next hl

theorem maps_quiet {m : Extract α} {Q : α → Session → Prop} (hm : (blank ls s).Does p s m Q) :
    Maps p ls s m Anyhow := (maps_does hm).imp fun _ _ _ _ _ => trivial

theorem maps_label {m : Extract α} {label : α → Label}
    (hm : (blank ls s).Does p s m fun a t => (blank ls s).Knows t (label a)) :
    Maps p ls s m fun a => Seen (label a) :=
  (maps_does hm).imp fun _ _ _ _ h => h.2 _ h.1

theorem maps_write {r : String} {args : List Arg} (hr : r ∉ mappingRelations) :
    Maps p ls s (write ⟨r, args⟩) Anyhow := by
  intro hs u t he
  obtain ⟨ls', hnext, ht, -⟩ := hs.pass (draws_write hs.hides hr he)
  exact ⟨ls', hnext, ht, trivial⟩

theorem maps_tell {r : String} {l : Label} {args : List Arg} (hr : r ≠ "exprs")
    (hl : Seen l ls s) : Maps p ls s (write ⟨r, .label l :: args⟩) Anyhow := by
  intro hs u t he
  obtain ⟨ls', hnext, ht, -⟩ := hs.pass (draws_tell hs.hides hr hl he)
  exact ⟨ls', hnext, ht, trivial⟩

theorem maps_current {f : Session → Session} {id : Option DeclId}
    (hf : ∀ s, f s = (Event.current id).step s) : Maps p ls s (modify f) Anyhow :=
  maps_quiet (Scope.does_current f hf ⟨id, rfl⟩)

theorem maps_inFunction {id : DeclId} {action : Extract α}
    (ha : ∀ ls s, Maps p ls s action Anyhow) : Maps p ls s (Walk.inFunction id action) Anyhow :=
  maps_get fun _ => maps_bind (maps_current fun _ => rfl) fun _ ls t _ _ =>
    maps_bind (ha ls t) fun _ _ _ _ _ => maps_bind (maps_current fun _ => rfl) fun _ _ _ _ _ =>
      maps_pure trivial

/-! ## Rows -/

variable {hidden : Set Nat} {t : Session} {callable : Label} {typeFuel : Nat}

theorem draws_type (hs : s.Hides hidden) {primitives : Bool} {type : IrType} {views : TypeViews}
    (he : Ends p s ((projection typeFuel).type primitives type) views t) :
    s.Draws hidden t [] [] :=
  (draws_of_does hs ((Scope.rowless_covers p typeFuel).type s primitives type) he).1

theorem draws_writeExpr (hs : s.Hides hidden) {id type richType parent : Label}
    {kind : Trap.ExprKind} {index : Int} {u : Unit}
    (he : Ends p s (writeExpr id kind type richType parent index) u t) :
    s.Draws hidden t [⟨.expr kind, id, parent, index⟩] [] := by
  obtain ⟨_, t₁, hrow, he⟩ := ends_bind.mp he
  have d₁ := draws_row hs hrow
  exact d₁.trans (draws_write d₁.hides (by decide) he)

theorem draws_locate (hs : s.Hides hidden) {n : Nat} (hn : n < s.table.next) {span : Span}
    {u : Unit} (he : Ends p s (locate (.number n) span) u t) : s.Draws hidden t [] [n] := by
  obtain ⟨place, t₁, hplace, he⟩ := ends_bind.mp he
  have d₁ := (draws_of_does hs (Scope.does_location span) hplace).1
  exact d₁.trans (draws_place d₁.hides (Nat.lt_of_lt_of_le hn d₁.next) he)

theorem draws_placed {place : Label → Extract Unit} (h : Walk.Places place) (hs : s.Hides hidden)
    {n : Nat} (hn : n < s.table.next) {u : Unit} (he : Ends p s (place (.number n)) u t) :
    s.Draws hidden t [] [n] := by
  cases h with
  | span span => exact draws_locate hs hn he
  | place place => exact draws_place hs hn he

theorem draws_typeArgument (hs : s.Hides hidden) {id parent : Label} {views : TypeViews}
    {index : Int} {u : Unit}
    (he : Ends p s (Walk.typeArgument callable id views parent index) u t) :
    s.Draws hidden t [⟨.expr .typeAccess, id, parent, index⟩] [] := by
  obtain ⟨_, t₁, hrow, he⟩ := ends_bind.mp he
  have d₁ := draws_writeExpr hs hrow
  exact d₁.trans (draws_write d₁.hides (by decide) he)

/-- A row with its place. A type access is not to look like a type argument. -/
theorem drawn_of_draws {r : Row} {kind : Trap.ExprKind} (hs : Mapped ls s)
    (hdraws : s.Draws (insert s.table.next (rowNumbers ls)) t [r] [s.table.next])
    (hid : r.id = .number s.table.next) (hkind : r.kind = .expr kind)
    (hparent : kind = .typeAccess → ∃ above, Drawn ls above r.parent ∧ ¬above.TakesTypes) :
    ∃ ls', Continues ls ls' s t ∧ Mapped ls' t ∧ Drawn ls' kind r.id := by
  have hnot : ¬ IsTypeArgument (expressions ls) r := fun harg => by
    obtain ⟨above, hd, htakes⟩ := hparent (RowKind.expr.inj (hkind.symm.trans harg.1))
    exact htakes ((hs.isTypeArgument_iff hd harg.1).mp harg)
  obtain ⟨ls', hnext, ht, hr⟩ := hs.draw hdraws hid (Nat.le_refl _) (fun haccess => by
    obtain ⟨above, hd, -⟩ := hparent (RowKind.expr.inj (hkind.symm.trans haccess))
    exact hd.mem_expressionIds) (by rw [if_neg hnot])
  exact ⟨ls', hnext, ht, r, hr, hkind, rfl⟩

theorem maps_exprRow {place : Label → Extract Unit} (hplace : Walk.Places place)
    {kind : Trap.ExprKind} {type : IrType} {parent enclosing : Label} {index : Int}
    (hparent : kind = .typeAccess → ∃ above, Drawn ls above parent ∧ ¬above.TakesTypes) :
    Maps p ls s (do
      let id ← fresh
      let type ← (projection typeFuel).type true type
      writeExpr id kind type.host.label type.rich.label parent index
      place id
      write (.callableEnclosingExpr id enclosing)
      return id) fun id ls' _ => Drawn ls' kind id := by
  intro hs id t he
  obtain ⟨id, t₁, hfresh, he⟩ := ends_bind.mp he
  obtain ⟨views, t₂, htype, he⟩ := ends_bind.mp he
  obtain ⟨_, t₃, hrow, he⟩ := ends_bind.mp he
  obtain ⟨_, t₄, hplaced, he⟩ := ends_bind.mp he
  obtain ⟨_, t₅, hcall, he⟩ := ends_bind.mp he
  obtain ⟨rfl, rfl⟩ := ends_pure.mp he
  obtain ⟨rfl, hlt, d₁⟩ := draws_fresh hs.hides hfresh
  have d₂ := draws_type d₁.hides htype
  have d₃ := draws_writeExpr d₂.hides hrow
  have d₄ := draws_placed hplace d₃.hides (Nat.lt_of_lt_of_le hlt (d₂.next.trans d₃.next)) hplaced
  have d₅ := draws_write d₄.hides (by decide) hcall
  exact drawn_of_draws hs ((((d₁.trans d₂).trans d₃).trans d₄).trans d₅) rfl rfl hparent

/-- A type argument has a row without a place, whether its label is taken before or after its
type is projected. -/
theorem argument_of_draws {above : Trap.ExprKind} {parent : Label} {index : Int} {n : Nat}
    {u : Unit} (hs : Mapped ls s) (hn : s.table.next ≤ n)
    (hdraws : s.Draws (insert n (rowNumbers ls)) t
      [⟨.expr .typeAccess, .number n, parent, index⟩] [])
    (hd : Drawn ls above parent) (habove : above.TakesTypes) :
    ∃ ls', Continues ls ls' s t ∧ Mapped ls' t ∧ Anyhow u ls' t := by
  obtain ⟨ls', hnext, ht, -⟩ := hs.draw hdraws rfl hn (fun _ => hd.mem_expressionIds)
    (by rw [if_pos ((hs.isTypeArgument_iff hd rfl).mpr habove)])
  exact ⟨ls', hnext, ht, trivial⟩

theorem maps_methodArgument {type : IrType} {parent : Label} {index : Int}
    (hd : Drawn ls .methodAccess parent) : Maps p ls s (do
      let access ← fresh
      let type ← (projection typeFuel).type false type
      Walk.typeArgument callable access type parent index) Anyhow := by
  intro hs u t he
  obtain ⟨id, t₁, hfresh, he⟩ := ends_bind.mp he
  obtain ⟨views, t₂, htype, he⟩ := ends_bind.mp he
  obtain ⟨rfl, -, d₁⟩ := draws_fresh hs.hides hfresh
  have d₂ := draws_type d₁.hides htype
  have d₃ := draws_typeArgument d₂.hides he
  exact argument_of_draws hs (Nat.le_refl _) ((d₁.trans d₂).trans d₃) hd (.inl rfl)

theorem maps_constructedArgument {views : TypeViews} {parent : Label} {index : Int}
    (hd : Drawn ls .typeAccess parent) : Maps p ls s (do
      Walk.typeArgument callable (← fresh) views parent index) Anyhow := by
  intro hs u t he
  obtain ⟨id, t₁, hfresh, he⟩ := ends_bind.mp he
  obtain ⟨rfl, -, d₁⟩ := draws_fresh hs.hides hfresh
  have d₂ := draws_typeArgument d₁.hides he
  exact argument_of_draws hs (Nat.le_refl _) (d₁.trans d₂) hd (.inr rfl)

/-- The row of a variable and that of its declaration share a place. -/
theorem maps_variableRow {l : Label} {name : String} {type : IrType} {span : Span}
    {parent : Label} {index : Int} {rest : Label → Extract Unit} (hl : Seen l ls s)
    (hrest : ∀ expr ls' t, Continues ls ls' s t → Drawn ls' .localVariableDecl expr →
      Maps p ls' t (rest expr) Anyhow) : Maps p ls s (do
        let expr ← fresh
        let type ← (projection typeFuel).type true type
        let place ← location span
        write (.localvars l name type.host.label type.rich.label expr)
        write (.hasLocation l place)
        writeExpr expr .localVariableDecl type.host.label type.rich.label parent index
        write (.hasLocation expr place)
        write (.callableEnclosingExpr expr callable)
        rest expr) Anyhow := by
  intro hs u t he
  obtain ⟨expr, t₁, hfresh, he⟩ := ends_bind.mp he
  obtain ⟨views, t₂, htype, he⟩ := ends_bind.mp he
  obtain ⟨place, t₃, hplace, he⟩ := ends_bind.mp he
  obtain ⟨_, t₄, hvariable, he⟩ := ends_bind.mp he
  obtain ⟨_, t₅, hlocated, he⟩ := ends_bind.mp he
  obtain ⟨_, t₆, hrow, he⟩ := ends_bind.mp he
  obtain ⟨_, t₇, hown, he⟩ := ends_bind.mp he
  obtain ⟨_, t₈, hcall, he⟩ := ends_bind.mp he
  obtain ⟨rfl, hlt, d₁⟩ := draws_fresh hs.hides hfresh
  have d₂ := draws_type d₁.hides htype
  have d₃ := (draws_of_does d₂.hides (Scope.does_location _) hplace).1
  have d₄ := draws_write d₃.hides (by decide) hvariable
  have h₁₄ := d₂.next.trans (d₃.next.trans d₄.next)
  have hl₄ : t₄.Visible _ l := (hl.insert (Nat.le_refl _)).of_next (hlt.le.trans h₁₄)
  have d₅ := draws_tell d₄.hides (by decide) hl₄ hlocated
  have d₆ := draws_writeExpr d₅.hides hrow
  have h₁₆ := h₁₄.trans (d₅.next.trans d₆.next)
  have d₇ := draws_place d₆.hides (Nat.lt_of_lt_of_le hlt h₁₆) hown
  have d₈ := draws_write d₇.hides (by decide) hcall
  have d₁₄ := ((d₁.trans d₂).trans d₃).trans d₄
  have d₁₈ := (((d₁₄.trans d₅).trans d₆).trans d₇).trans d₈
  obtain ⟨ls₁, h₁, ht₈, hdrawn⟩ := drawn_of_draws hs d₁₈ rfl rfl nofun
  obtain ⟨ls₂, h₂, ht, -⟩ := hrest _ ls₁ t₈ h₁ hdrawn ht₈ u t he
  exact ⟨ls₂, h₁.trans h₂, ht, trivial⟩

/-! ## The reading -/

theorem notMem_mappingRelations {r : String} (h : r ∉ noticedRelations) :
    r ∉ mappingRelations := by
  have hnoticed : mappingRelations ⊆ noticedRelations := by decide
  exact fun hr => h (hnoticed hr)

theorem notMem_mappingRelations_of_row {r : String} (h : r ∈ rowRelations) :
    r ∉ mappingRelations := by
  revert r
  decide

theorem ne_exprs_of_subject {r : String} (h : r ∈ subjectRelations) : r ≠ "exprs" := by
  revert r
  decide

/-- What is read of an action is that it locates the rows that it draws. In the world are the
lines that were written. -/
def mapping (p : Program) : Reading p where
  World := List Line × Session
  Says x m _ Q := Maps p x.1 x.2 m fun r ls t => Q r (ls, t)
  Later x y := Continues x.1 y.1 x.2 y.2
  Told l x := Seen l x.1 x.2
  Drawn kind l x := Drawn x.1 kind l
  Inside _ _ := True
  Counts := False
  later_refl x := .refl x.1 x.2
  later_trans h k := h.trans k
  told_later hl h := h.visible hl
  drawn_later hd h := h.drawn hd
  inside_later _ _ := trivial
  says_pure h := maps_pure h
  says_bind hm hf := maps_bind hm fun r ls t h hr => hf r (ls, t) h hr
  says_throw _ _ _ he := absurd he ends_throw
  says_read h hs b t he := h hs b t (ends_read_bind.mp he)
  says_get _ h := maps_get fun htarget => h _ htarget False.elim
  says_imp h hi := h.imp fun r ls t hnext hr => hi r (ls, t) hnext hr
  says_and h hp hs r t he := by
    obtain ⟨ls', hnext, ht, hr⟩ := h hs r t he
    exact ⟨ls', hnext, ht, hp _ r t he, hr⟩
  says_convert _ h := h
  says_mark _ _ h := h
  says_expression h := h
  says_classBody h := h
  says_inFunction h := maps_inFunction fun ls s => h (ls, s) trivial
  says_fresh _ := maps_label Scope.does_fresh
  says_write h := maps_write (notMem_mappingRelations h)
  says_tell hr hl := maps_tell (ne_exprs_of_subject hr) hl
  says_row hr := maps_write (notMem_mappingRelations_of_row hr)
  says_typeArgument hd := maps_constructedArgument hd
  says_location _ span := maps_quiet (Scope.does_location span)
  says_wholeFile _ := maps_quiet Scope.does_wholeFile
  says_complain _ := maps_quiet (Scope.does_complain _)
  says_complainAt _ := maps_quiet (Scope.does_complainAt _ _)
  says_openLoop id hl := maps_quiet (Scope.does_openLoop (knows_of_seen hl))
  says_closeLoop _ id := maps_quiet Scope.does_closeLoop
  says_callableLabel _ := maps_label (Scope.does_labelFor (Scope.rowless_spells _ _))
  says_packageLabel _ name := maps_quiet (Scope.does_packageLabel fun _ _ => trivial)
  says_fileClassLabel _ file := maps_label (Scope.does_fileClassLabel blank_allows (.inl rfl))
  says_addModifiers hl :=
    maps_quiet (Scope.does_addModifiers (knows_of_seen hl) fun _ _ _ _ => trivial)
  says_localVariable _ id := maps_label (Scope.does_localVariable id)

theorem follows_mapping (p : Program) (typeFuel : Nat) :
    (mapping p).Follows (projection typeFuel) where
  mention _ type primitives _ := maps_quiet (blank_covers.type _ primitives type)
  borrow type primitives _ := maps_quiet (blank_covers.type _ primitives type)
  erased _ _ := maps_quiet (blank_covers.type _ _ _)
  unit _ := maps_quiet (blank_covers.type _ _ _)
  classInstance id _ := maps_quiet (blank_covers.classInstance _ id [])
  classType id _ := maps_quiet (Scope.does_classType blank_covers blank_allows id [] false)
  supertype _ _ _ _ _ := maps_quiet (blank_covers.classInstance _ _ _)
  typeParameter id _ := maps_label (Scope.does_typeParameter blank_covers blank_allows (.inl rfl))
  function id _ := maps_label (Scope.does_function blank_covers blank_allows id)
  classSource id _ := maps_label (Scope.does_classSource blank_covers blank_allows id)
  field id _ := maps_label (Scope.does_field blank_covers blank_allows (.inl rfl))
  property id _ := maps_label (Scope.does_property blank_covers blank_allows (.inl rfl))
  enumEntry id _ := maps_label (Scope.does_enumEntry blank_covers blank_allows (.inl rfl))
  typeAlias id _ := maps_label (Scope.does_typeAlias blank_covers blank_allows (.inl rfl))
  value id _ := maps_label (Scope.does_value blank_covers blank_allows id)
  valueParameter id _ := maps_label (Scope.does_valueParameter blank_covers blank_allows id)
  objectField id _ := maps_label (Scope.does_objectField blank_covers id)
  companionField? id _ :=
    (maps_does (Scope.does_companionField? blank_covers blank_allows id)).imp
      fun _ _ _ _ h field hfield => h.2 _ (h.1 field hfield)
  obinitKey id unit _ := maps_quiet (Scope.does_callableKey blank_covers
    (Scope.letters_of_plain (by decide)) (Scope.allowsParent_decl id) _ _)
  exprRow hplace _ hparent := maps_exprRow hplace hparent
  methodArgument _ hd := maps_methodArgument hd
  variableRow _ hl hrest :=
    maps_variableRow hl fun expr ls t h hd => hrest expr (ls, t) h hd

end Extract

namespace Walk

open Extract

variable {p : Program} {s t : Session}

/-- Each row of an expression is located once, whatever is nested in the expression, unless it
is a type argument of a call: such a row is not located. The rows have new labels, of which
nothing was said before, and the session does not remember them. -/
theorem expression_located (typeFuel walkFuel : Nat) {callable : Label} {slot : Slot} {e : Expr}
    {u : Unit} (hs : s.Hides ∅)
    (he : Ends p s ((walk (projection typeFuel) walkFuel).expression callable slot e) u t) :
    ∃ ls, s.Wrote t ls ∧
      (t.file.writer.failure = none →
        t.file.writer.sink.lines = s.file.writer.sink.lines ++ ls) ∧
      ∀ r ∈ expressions ls, (∃ k, r.id = .number k ∧ s.table.next ≤ k) ∧ r.id ∉ t.remembered ∧
        (located ls).count r.id = if IsTypeArgument (expressions ls) r then 0 else 1 := by
  have hwalk := Reading.treads_walk (follows_mapping p typeFuel) walkFuel
  have hsays := hwalk.expression (c := ⟨false, []⟩) (x := ([], s)) trivial callable slot e
  obtain ⟨ls, ⟨-, _, rfl, hwrote, hnew⟩, hmapped, -⟩ := hsays (mapped_nil hs) u t he
  refine ⟨ls, hwrote, hwrote.lines_append, fun r hr =>
    ⟨hnew r hr, fun hmem => ?_, hmapped.once r hr⟩⟩
  obtain ⟨k, hk, -⟩ := hnew r hr
  have hrow : .number k ∈ expressionIds ls := hk ▸ mem_expressionIds hr
  exact (hmapped.hides.visible r.id hmem k hk).2 hrow

def oneFunction : Program :=
  let function : FunctionDecl := { name := "f", returnType := .error "f" }
  { files := #[{ path := "a.kt", declarations := [⟨0⟩] }]
    declarations := #[{ parent := .file ⟨0⟩, kind := .function function }]
    classIndex := [] }

/-- A call of the function with a type and with a value. -/
def genericCall : Expr :=
  let null : Expr := ⟨.undefined, .error "null", .const .null⟩
  ⟨.undefined, .error "f", .call ⟨⟨0⟩, none, [.error "T"], [some null], none⟩⟩

def writeGenericCall : Extract Unit :=
  (walk (projection 8) 8).expression (.named "callable") (.expression (.named "parent") 0)
    genericCall

def emptySession : Session :=
  { file := .source (.ofSink .unbounded) "a.kt" .single, counter := {}, queue := {} }

theorem expression_located_genericCall :
    emptySession.Hides ∅ ∧ ∃ t ls, Ends oneFunction emptySession writeGenericCall () t ∧
      emptySession.Wrote t ls ∧ ∀ r ∈ expressions ls,
        (located ls).count r.id = if IsTypeArgument (expressions ls) r then 0 else 1 := by
  have hs : emptySession.Hides ∅ := hides_ofPath rfl rfl rfl
  obtain ⟨u, t, he⟩ := ends_of_isOk (p := oneFunction) (s := emptySession)
    (m := writeGenericCall) (by decide +kernel)
  obtain ⟨ls, hwrote, -, hrows⟩ := expression_located 8 8 hs he
  exact ⟨hs, t, ls, he, hwrote, fun r hr => (hrows r hr).2.2⟩

/-- The type has a row, and no place. -/
example : (writeGenericCall oneFunction emptySession).toOption.map (fun (_, t) =>
    let ls := t.file.writer.sink.lines
    (expressions ls).map fun r => (r.kind, (located ls).count r.id)) =
      some [(.expr .methodAccess, 1), (.expr .typeAccess, 0), (.expr .nullLiteral, 1)] := by
  decide +kernel

end Walk

end IrFacts
