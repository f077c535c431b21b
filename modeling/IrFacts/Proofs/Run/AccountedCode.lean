import IrFacts.Proofs.Run.AccountedProjection
import IrFacts.Proofs.Run.ReadDeclarations

/-!
# Extraction under an account

That every completed run of an action passes certain items, as the account has
it, can be read of the whole walk. The world of this reading is the session: in
it labels are open, and there the code stands in a function or does not.
-/

set_option autoImplicit false

namespace IrFacts

def Context.Suits (c : Context) (s : Session) : Prop := c.inside = s.currentFunction.isSome

namespace Account

open Extract

variable {p : Program} {a : Account p} {v : Vocabulary p} {s t : Session} {c : Context} {α : Type}

@[grind →]
theorem Passes.suits {items : List WalkItem} (h : a.Passes s items t) (hc : c.Suits s) :
    c.Suits t := by
  rw [Context.Suits, h.function]
  exact hc

/-! ## The walk of an action -/

theorem Walks.expression {m : Extract α} {e : Expr} {Q : α → Session → Prop}
    (h : a.Walks s m (p.expressionItems c e) Q) : a.Walks s m [.expression c e] Q := by
  intro hs r t he
  obtain ⟨⟨⟨es, ms, hrun, hms, hes⟩, htidy, hf⟩, hq⟩ := h hs r t he
  exact ⟨⟨⟨es, ms, hrun, hms.of_expression, hes⟩, htidy, hf⟩, hq⟩

theorem Walks.classBody {m : Extract α} {id : DeclId} {Q : α → Session → Prop}
    (h : a.Walks s m (p.classItems c id) Q) : a.Walks s m [.classBody c id] Q := by
  intro hs r t he
  obtain ⟨⟨⟨es, ms, hrun, hms, hes⟩, htidy, hf⟩, hq⟩ := h hs r t he
  exact ⟨⟨⟨es, ms, hrun, hms.of_classBody, hes⟩, htidy, hf⟩, hq⟩

theorem Walks.passing {m : Extract α} {items : List WalkItem} {Q : α → Session → Prop}
    {mark : Mark} (hmark : mark.Passing) (h : a.Walks s m items Q) :
    a.Walks s m (.mark mark :: items) Q := by
  refine h.mark fun s => ?_
  cases mark with
  | reach id => exact a.reach s id
  | mention scope type => exact a.mention s scope type
  | borrow type => exact a.borrow s type
  | row | declare => exact hmark.elim

/-- Whatever the function around the code is, it is that again afterwards. -/
theorem walks_inFunction {id : DeclId} {action : Extract α} {items : List WalkItem}
    (h : ∀ t, true = t.currentFunction.isSome → a.Walks t action items Any) :
    a.Walks s (Walk.inFunction id action) items Any := by
  intro hs r t he
  have hbind := ends_get_bind.mp he
  obtain ⟨_, s₁, hfirst, hbind⟩ := ends_bind.mp hbind
  obtain rfl : s₁ = (Event.current (some id)).step s := ends_modify.mp hfirst
  obtain ⟨result, s₂, haction, hbind⟩ := ends_bind.mp hbind
  obtain ⟨_, s₃, hlast, hpure⟩ := ends_bind.mp hbind
  obtain rfl : s₃ = (Event.current s.currentFunction).step s₂ := ends_modify.mp hlast
  obtain ⟨-, rfl⟩ := ends_pure.mp hpure
  have hs₁ : ((Event.current (some id)).step s).Tidy a.hidden := hs.step nofun nofun
  obtain ⟨⟨⟨es, ms, rfl, hms, hes⟩, htidy, -⟩, -⟩ := h _ rfl hs₁ result s₂ haction
  -- The function is exchanged by an event before the action and one after it.
  refine ⟨⟨⟨[.current (some id)] ++ (es ++ [.current s.currentFunction]), ms, ?_, hms, ?_⟩,
    htidy.step nofun nofun, rfl⟩, trivial⟩
  · rw [Event.run_append, Event.run_append]
    rfl
  · have hlast := a.append hes (a.other (e := .current s.currentFunction) nofun nofun nofun)
    have hall := a.append (a.other (s := s) (e := .current (some id)) nofun nofun nofun) hlast
    simpa using hall

theorem quiet_writeExpr (id : Label) (kind : Trap.ExprKind) (type richType parent : Label)
    (index : Int) : a.Quiet s (writeExpr id kind type richType parent index) Any :=
  quiet_bind (quiet_write (by decide)) fun _ _ _ _ => quiet_write (by decide)

theorem quiet_typeArgument (callable id : Label) (views : TypeViews) (parent : Label)
    (index : Int) : a.Quiet s (Walk.typeArgument callable id views parent index) Any :=
  quiet_bind (quiet_writeExpr _ _ _ _ _ _) fun _ _ _ _ => quiet_write (by decide)

theorem quiet_place {place : Label → Extract Unit} (h : Walk.Places place) {id : Label}
    (hid : a.Told id s) : a.Quiet s (place id) Any := by
  cases h with
  | span span => exact quiet_locate span hid
  | place place => exact quiet_tell (by decide) hid

theorem notMem_countedRelations {r : String} (h : r ∈ Trap.subjectRelations) :
    r ∉ Trap.countedRelations := by
  revert r
  decide

/-- Accounts do not care what a row is of, once its label is open. -/
def reading (a : Account p) : Reading p where
  World := Session
  Says s m items Q := a.Walks s m items Q
  Later s t := (∀ l, a.Told l s → a.Told l t) ∧ t.currentFunction = s.currentFunction
  Told l s := a.Told l s
  Drawn _ _ _ := True
  Inside b s := b = s.currentFunction.isSome
  Counts := True
  later_refl _ := ⟨fun _ h => h, rfl⟩
  later_trans h k := ⟨fun l hl => k.1 l (h.1 l hl), k.2.trans h.2⟩
  told_later hl h := h.1 _ hl
  drawn_later _ _ := trivial
  inside_later hb h := hb.trans (by rw [h.2])
  says_pure h := quiet_pure h
  says_bind hm hf := walks_bind hm fun r t hst hr =>
    hf r t ⟨fun _ hl => hst.told hl, hst.function⟩ hr
  says_throw := walks_throw
  says_read h := walks_read h
  says_get _ h := walks_get fun hs => h _ hs.target fun _ _ hb => hb
  says_imp h hi := h.imp fun r t hst hr => hi r t ⟨fun _ hl => hst.told hl, hst.function⟩ hr
  says_and h hp := h.and fun r t he => hp _ r t he
  says_convert he h := h.of_eq (he trivial)
  says_mark _ hmark h := h.passing hmark
  says_expression h := h.expression
  says_classBody h := h.classBody
  says_inFunction h := walks_inFunction fun t ht => h t ht
  says_fresh _ := quiet_fresh
  says_write h := quiet_write fun hr => h (List.mem_append_left _ (List.mem_append_left _ hr))
  says_tell hr hl := quiet_tell (notMem_countedRelations hr) hl
  says_row hr := walks_row hr
  says_typeArgument _ := quiet_bind quiet_fresh fun _ _ _ _ => quiet_typeArgument _ _ _ _ _
  says_location _ span := quiet_location span
  says_wholeFile _ := quiet_wholeFile
  says_complain h := quiet_complain h
  says_complainAt h := quiet_complainAt h _
  says_openLoop id _ := quiet_modify (e := .enter id _) rfl (a.other nofun nofun nofun)
    nofun nofun nofun
  says_closeLoop _ id := quiet_modify (e := .leave id) rfl (a.other nofun nofun nofun)
    nofun nofun nofun
  says_callableLabel h := quiet_labelFor (a.not_kept_of_start (by decide) h)
  says_packageLabel _ name := quiet_packageLabel name
  says_fileClassLabel _ file := quiet_fileClassLabel file
  says_addModifiers _ := quiet_addModifiers _ _
  says_localVariable _ id := quiet_localVariable id

/-! ## The whole walk -/

/-- How the types that are written in a program are passed. -/
structure Follows (a : Account p) (v : Vocabulary p) (π : Projection) : Prop
    extends a.Keeps v π where
  mention : ∀ (c : Context) type primitives s,
    a.Walks s (π.type primitives type) (c.mentions [type]) Any
  borrow : ∀ type primitives s,
    a.Walks s (π.type primitives type) [.mark (.borrow type)] Any
  /-- A supertype is passed without its nullability. -/
  supertype : ∀ (c : Context) {u : SimpleType} {id}, u.classifier = .ofClass id → ∀ s,
    a.Walks s (π.classInstance id u.arguments) (c.mentions [.simple u]) Any
  typeParameter : ∀ id s,
    a.Walks s (π.typeParameter id) (p.typeParameterItems id) a.Told

/-- Types are only passed by where projection is no step of the walk in any case. -/
theorem Keeps.follows {π : Projection} (hπ : a.Keeps (.whole p) π)
    (hdeclare : ∀ s id, a.Holds s [] [.declare id]) : a.Follows (.whole p) π where
  toKeeps := hπ
  mention c type primitives s :=
    (hπ.type trivial primitives s).mentions.of_eq (List.append_nil (c.mentions [type]))
  borrow type primitives s := (hπ.type trivial primitives s).mark fun s => a.borrow s type
  supertype c u id _ s :=
    (hπ.classInstance trivial s).mentions.of_eq (List.append_nil (c.mentions [.simple u]))
  typeParameter id s := by
    unfold Program.typeParameterItems
    split
    · exact (quiet_typeParameter hπ id).mark fun s => hdeclare s id
    · exact quiet_typeParameter hπ id

theorem Follows.reads {π : Projection} (h : a.Follows v π) : a.reading.Follows π where
  mention := h.mention
  borrow := h.borrow
  erased _ s := h.type (v.erase _) true s
  unit s := h.type (v.builtinType "Unit") true s
  classInstance id s := h.classInstance (v.bare id false) s
  classType id _ := quiet_classType h.toKeeps false (v.bare id false)
  supertype := h.supertype
  typeParameter := h.typeParameter
  function id _ := quiet_function h.toKeeps id
  classSource id _ := quiet_classSource id
  field id _ := quiet_member h.toKeeps (by decide) id
  property id _ := quiet_member h.toKeeps (by decide) id
  enumEntry id _ := quiet_member h.toKeeps (by decide) id
  typeAlias id _ := quiet_member h.toKeeps (by decide) id
  value id _ := quiet_value h.toKeeps id
  valueParameter id _ := quiet_valueParameter h.toKeeps id
  objectField id _ := quiet_objectField h.toKeeps id
  companionField? id _ := quiet_companionField? h.toKeeps id
  obinitKey id unit _ := (quiet_callableKey h.toKeeps _ _ _ _).any
  exprRow hplace htype _ := by
    refine quiet_bind quiet_fresh fun id _ _ hid => bind_quiet (htype _) fun _ _ h₁ _ => ?_
    refine quiet_bind (quiet_writeExpr _ _ _ _ _ _) fun _ _ h₂ _ => ?_
    refine quiet_bind (quiet_place hplace (h₂.told (h₁.told hid))) fun _ _ _ _ => ?_
    exact quiet_bind (quiet_write (by decide)) fun _ _ _ _ => quiet_pure trivial
  methodArgument htype _ := quiet_bind quiet_fresh fun _ _ _ _ =>
    bind_quiet (htype _) fun _ _ _ _ => quiet_typeArgument _ _ _ _ _
  variableRow htype hl hrest := by
    refine quiet_bind quiet_fresh fun row _ h₁ hrow => walks_bind (htype _) fun _ _ h₂ _ => ?_
    refine quiet_bind (quiet_location _) fun _ _ h₃ _ => ?_
    refine quiet_bind (quiet_write (by decide)) fun _ _ h₄ _ => ?_
    have hl₄ := h₄.told (h₃.told (h₂.told (h₁.told hl)))
    refine quiet_bind (quiet_tell (by decide) hl₄) fun _ _ h₅ _ => ?_
    refine quiet_bind (quiet_writeExpr _ _ _ _ _ _) fun _ _ h₆ _ => ?_
    refine quiet_bind (quiet_tell (by decide) (by grind)) fun _ _ h₇ _ => ?_
    refine quiet_bind (quiet_write (by decide)) fun _ _ h₈ _ => hrest row _ ⟨?_, ?_⟩ trivial
    · intro l hl
      grind
    · rw [h₈.function, h₇.function, h₆.function, h₅.function, h₄.function, h₃.function,
        h₂.function, h₁.function]

/-- Both projection and what a walk needs of itself pass what they stand for. -/
structure Treads (a : Account p) (v : Vocabulary p) (w : Walk) : Prop
    extends a.Follows v w.toProjection where
  reads : a.reading.Treads w

theorem treads_walk {typeFuel : Nat} (ha : a.Follows v (projection typeFuel)) (walkFuel : Nat) :
    a.Treads v (walk (projection typeFuel) walkFuel) := by
  have hfollows : a.Follows v (walk (projection typeFuel) walkFuel).toProjection := by
    cases walkFuel <;> exact ha
  exact ⟨hfollows, Reading.treads_walk ha.reads walkFuel⟩

/-! ## New writers -/

theorem passes_ofPath (a : Account p) {w : Trap.Writer} (hw : w.labels.Faithful) {path : String}
    {lines : Option LineTable} (h : s.file = .ofPath w path lines) (hlocals : s.locals = []) :
    ∃ start : Session, start.file.writer = w ∧ start.currentFunction = s.currentFunction ∧
      a.Passes start [] s := by
  let start : Session :=
    { s with file := { writer := w, target := { path, label := .placeholder, lines } } }
  have htidy : start.Tidy a.hidden := by
    refine ⟨hw, Session.open_placeholder hw, ?_⟩
    intro e he
    rw [show start.locals = [] from hlocals] at he
    cases he
  have hopen : Ends p start (onFile (·.retarget path lines true)) start.file.target s := by
    obtain ⟨file, _⟩ := s
    obtain rfl := h
    rfl
  exact ⟨start, rfl, rfl, (quiet_retarget path lines true htidy _ _ hopen).1⟩

/-- What an account comes to from a new writer up to the file, and from there over the file. -/
theorem holds_extractFile {sink : Trap.Sink} {path : String} {lines : Option LineTable}
    {typeFuel walkFuel : Nat} {file : FileId} {ms : List Mark}
    (hfollows : a.Follows v (projection typeFuel))
    (hunfolds : Unfolds p (p.fileItems ⟨false, []⟩ file) ms)
    (hfile : s.file = .ofPath (.ofSink sink) path lines) (hlocals : s.locals = [])
    (houtside : s.currentFunction = none)
    (h : Ends p s ((walk (projection typeFuel) walkFuel).extractFile file) () t) :
    ∃ start es fs, start.file.writer = .ofSink sink ∧ Event.run es start = s ∧
      Event.run fs s = t ∧ a.Holds start es [] ∧ a.Holds s fs ms := by
  obtain ⟨start, hwriter, -, ⟨es, ns, hes, hns, hbefore⟩, htidy, -⟩ :=
    a.passes_ofPath LabelTable.faithful_empty hfile hlocals
  cases hns
  have hsuits : Context.Suits ⟨false, []⟩ s := by
    rw [Context.Suits, houtside]
    rfl
  have hwalk := Reading.says_extractFile (treads_walk hfollows walkFuel).reads hsuits file
  obtain ⟨⟨fs, ns, hfs, hns, hover⟩, -⟩ := (hwalk htidy () t h).1
  obtain rfl := hns.unique hunfolds
  exact ⟨start, es, fs, hwriter, hes, hfs, hbefore, hover⟩

end Account

end IrFacts
