import IrFacts.Proofs.Run.ReadDeclarations

/-!
# Extraction is scripted

The code and the declarations of a program are written in scripts as well:
they add rows and open and close loops, but what introduces keys is left to
projection, packages, modifiers and places.
-/

set_option autoImplicit false

namespace IrFacts

namespace Extract

open Event

variable {α : Type} {p : Program} {π : Projection} {w : Walk}

/-- The action is a script, whatever happens in it besides introductions. -/
abbrev Plain (p : Program) (m : Extract α) : Prop := Scripted (Event.Plain p) p m

theorem Scripted.plain {m : Extract α} (h : Scripted (Event.Aside p) p m) : Plain p m :=
  h.mono fun _ he => he.plain

theorem Asks.plain {m : Extract α} (h : Asks p m) : Plain p m := h.aside.plain

theorem plain_write {r : String} {args : List Trap.Arg} (hr : r ∉ Trap.introducingRelations) :
    Plain p (write ⟨r, args⟩) := scripted_write hr

theorem plain_fresh : Plain p fresh := scripted_fresh trivial

theorem plain_complain (problem : Problem) : Plain p (complain problem) :=
  scripted_bind scripted_unknownLocation.plain fun _ => scripted_reportAt trivial

theorem plain_complainAt (problem : Problem) (span : Span) : Plain p (complainAt problem span) :=
  scripted_bind (scripted_location span).plain fun _ => scripted_reportAt trivial

theorem plain_modify {f : Session → Session} {e : Event} (he : Event.Plain p e)
    (hf : ∀ s, f s = e.step s) : Plain p (modify f : Extract PUnit) := scripted_modify e he hf

theorem plain_inFunction (id : DeclId) {action : Extract α} (ha : Plain p action) :
    Plain p (Walk.inFunction id action) :=
  .look (fun s t h => by rw [h.currentFunction]) fun s =>
    scripted_bind (plain_modify (e := .current (some id)) trivial fun _ => rfl) fun _ =>
      scripted_bind ha fun _ =>
        scripted_bind (plain_modify (e := .current s.currentFunction) trivial fun _ => rfl)
          fun _ => .pure _

/-! ## Rows -/

theorem plain_writeExpr (id : Label) (kind : Trap.ExprKind) (type richType parent : Label)
    (index : Int) : Plain p (writeExpr id kind type richType parent index) :=
  scripted_bind (plain_write (by decide)) fun _ => plain_write (by decide)

theorem plain_typeArgument (callable id : Label) (views : TypeViews) (parent : Label)
    (index : Int) : Plain p (Walk.typeArgument callable id views parent index) :=
  scripted_bind (plain_writeExpr _ _ _ _ _ _) fun _ => plain_write (by decide)

theorem plain_place {place : Label → Extract Unit} (h : Walk.Places place) (id : Label) :
    Plain p (place id) := by
  cases h with
  | span span => exact (scripted_locate id span).plain
  | place place => exact plain_write (by decide)

theorem notMem_introducingRelations {r : String}
    (h : r ∈ Trap.rowRelations ++ Trap.subjectRelations) : r ∉ Trap.introducingRelations := by
  revert r
  decide

/-! ## The reading -/

/-- What is read of an action is that it is a script. There is nothing to remember for that. -/
def scripts (p : Program) : Reading p where
  World := Unit
  Says _ m _ Q := Plain p m ∧ ∀ s r t, Ends p s m r t → Q r ()
  Later _ _ := True
  Told _ _ := True
  Drawn _ _ _ := True
  Inside _ _ := True
  Counts := False
  later_refl _ := trivial
  later_trans _ _ := trivial
  told_later _ _ := trivial
  drawn_later _ _ := trivial
  inside_later _ _ := trivial
  says_pure h := ⟨.pure _, fun _ _ _ he => (ends_pure.mp he).1 ▸ h⟩
  says_bind hm hf :=
    ⟨.bind hm.1 fun r ⟨s, t, hr⟩ => (hf r () trivial (hm.2 s r t hr)).1, fun s b u he => by
      obtain ⟨r, t, hr, hb⟩ := ends_bind.mp he
      exact (hf r () trivial (hm.2 s r t hr)).2 t b u hb⟩
  says_throw := ⟨.throw _, fun _ _ _ he => absurd he ends_throw⟩
  says_read h := ⟨scripted_read h.1, fun s b t he => h.2 s b t (ends_read_bind.mp he)⟩
  says_get hpermitted h :=
    ⟨.look hpermitted fun s => (h s trivial False.elim).1, fun s b t he =>
      (h s trivial False.elim).2 s b t (ends_get_bind.mp he)⟩
  says_imp h hi := ⟨h.1, fun s r t he => hi r () trivial (h.2 s r t he)⟩
  says_and h hp := ⟨h.1, fun s r t he => ⟨hp s r t he, h.2 s r t he⟩⟩
  says_convert _ h := h
  says_mark _ _ h := h
  says_expression h := h
  says_classBody h := h
  says_inFunction h := ⟨plain_inFunction _ (h () trivial).1, fun _ _ _ _ => trivial⟩
  says_fresh _ := ⟨plain_fresh, fun _ _ _ _ => trivial⟩
  says_write hr := by
    refine ⟨plain_write fun h => hr ?_, fun _ _ _ _ => trivial⟩
    exact List.mem_append_left _ (List.mem_append_right _ h)
  says_tell hr _ := ⟨plain_write (notMem_introducingRelations (List.mem_append_right _ hr)),
    fun _ _ _ _ => trivial⟩
  says_row hr := ⟨plain_write (notMem_introducingRelations (List.mem_append_left _ hr)),
    fun _ _ _ _ => trivial⟩
  says_typeArgument _ := ⟨scripted_bind plain_fresh fun _ => plain_typeArgument _ _ _ _ _,
    fun _ _ _ _ => trivial⟩
  says_location _ span := ⟨(scripted_location span).plain, fun _ _ _ _ => trivial⟩
  says_wholeFile _ := ⟨scripted_wholeFile, fun _ _ _ _ => trivial⟩
  says_complain _ := ⟨plain_complain _, fun _ _ _ _ => trivial⟩
  says_complainAt _ := ⟨plain_complainAt _ _, fun _ _ _ _ => trivial⟩
  says_openLoop id _ := ⟨plain_modify (e := .enter id _) trivial fun _ => rfl,
    fun _ _ _ _ => trivial⟩
  says_closeLoop _ id := ⟨plain_modify (e := .leave id) trivial fun _ => rfl,
    fun _ _ _ _ => trivial⟩
  says_callableLabel h := ⟨scripted_labelFor (plainKey_of_start (by decide) h),
    fun _ _ _ _ => trivial⟩
  says_packageLabel _ name := ⟨(asks_packageLabel name).plain, fun _ _ _ _ => trivial⟩
  says_fileClassLabel _ file := ⟨(asks_fileClassLabel file).plain, fun _ _ _ _ => trivial⟩
  says_addModifiers _ := ⟨(aside_addModifiers _ _).plain, fun _ _ _ _ => trivial⟩
  says_localVariable _ id := ⟨(aside_localVariable id).plain, fun _ _ _ _ => trivial⟩

theorem follows_scripts (hπ : Stable p π) : (scripts p).Follows π where
  mention _ type primitives _ := ⟨(hπ.asksType primitives type).plain, fun _ _ _ _ => trivial⟩
  borrow type primitives _ := ⟨(hπ.asksType primitives type).plain, fun _ _ _ _ => trivial⟩
  erased _ _ := ⟨(hπ.asksType _ _).plain, fun _ _ _ _ => trivial⟩
  unit _ := ⟨(hπ.asksType _ _).plain, fun _ _ _ _ => trivial⟩
  classInstance id _ := ⟨(hπ.asksInstance id []).plain, fun _ _ _ _ => trivial⟩
  classType id _ := ⟨(asks_classType hπ id [] false).plain, fun _ _ _ _ => trivial⟩
  supertype _ _ _ _ _ := ⟨(hπ.asksInstance _ _).plain, fun _ _ _ _ => trivial⟩
  typeParameter id _ := ⟨(asks_typeParameter hπ id).plain, fun _ _ _ _ => trivial⟩
  function id _ := ⟨(asks_function hπ id).plain, fun _ _ _ _ => trivial⟩
  classSource id _ := ⟨(asks_classSource hπ id).plain, fun _ _ _ _ => trivial⟩
  field id _ := ⟨(asks_member hπ (by decide) id).plain, fun _ _ _ _ => trivial⟩
  property id _ := ⟨(asks_member hπ (by decide) id).plain, fun _ _ _ _ => trivial⟩
  enumEntry id _ := ⟨(asks_member hπ (by decide) id).plain, fun _ _ _ _ => trivial⟩
  typeAlias id _ := ⟨(asks_member hπ (by decide) id).plain, fun _ _ _ _ => trivial⟩
  value id _ := ⟨(aside_value hπ id).plain, fun _ _ _ _ => trivial⟩
  valueParameter id _ := ⟨(asks_valueParameter hπ id).plain, fun _ _ _ _ => trivial⟩
  objectField id _ := ⟨(asks_objectField hπ id).plain, fun _ _ _ _ => trivial⟩
  companionField? id _ := ⟨(asks_companionField? hπ id).plain, fun _ _ _ _ _ _ => trivial⟩
  obinitKey id unit _ := ⟨(asks_callableKey hπ _ _ _ _).plain, fun _ _ _ _ => trivial⟩
  exprRow hplace htype _ := by
    refine ⟨scripted_bind plain_fresh fun id => scripted_bind (htype ()).1 fun _ => ?_,
      fun _ _ _ _ => trivial⟩
    exact scripted_bind (plain_writeExpr _ _ _ _ _ _) fun _ =>
      scripted_bind (plain_place hplace id) fun _ =>
        scripted_bind (plain_write (by decide)) fun _ => .pure _
  methodArgument htype _ := ⟨scripted_bind plain_fresh fun _ =>
    scripted_bind (htype ()).1 fun _ => plain_typeArgument _ _ _ _ _, fun _ _ _ _ => trivial⟩
  variableRow htype _ hrest := by
    refine ⟨scripted_bind plain_fresh fun expr => scripted_bind (htype ()).1 fun _ =>
      scripted_bind (scripted_location _).plain fun _ => ?_, fun _ _ _ _ => trivial⟩
    exact scripted_bind (plain_write (by decide)) fun _ =>
      scripted_bind (plain_write (by decide)) fun _ =>
        scripted_bind (plain_writeExpr _ _ _ _ _ _) fun _ =>
          scripted_bind (plain_write (by decide)) fun _ =>
            scripted_bind (plain_write (by decide)) fun _ => (hrest expr () trivial trivial).1

/-- What a walk asks for is asked the same each time, and all its code is written in scripts. -/
structure KeepsPlain (p : Program) (w : Walk) : Prop extends Stable p w.toProjection where
  treads : (scripts p).Treads w

theorem keepsPlain_walk (p : Program) (typeFuel walkFuel : Nat) :
    KeepsPlain p (walk (projection typeFuel) walkFuel) := by
  have hfollows : (scripts p).Follows (projection typeFuel) :=
    follows_scripts (stable_projection p typeFuel)
  have hstable : Stable p (walk (projection typeFuel) walkFuel).toProjection := by
    cases walkFuel <;> exact stable_projection p typeFuel
  exact ⟨hstable, Reading.treads_walk hfollows walkFuel⟩

/-- Where the code stands is nothing to a script. -/
def nowhere : Context := ⟨false, []⟩

theorem plain_of_says {m : Extract α} {items : List WalkItem} {Q : α → Unit → Prop}
    (h : (scripts p).Says () m items Q) : Plain p m := h.1

theorem plain_extractFile (hw : KeepsPlain p w) (id : FileId) : Plain p (w.extractFile id) :=
  plain_of_says (Reading.says_extractFile (c := nowhere) hw.treads trivial id)

theorem plain_classDeclaration (hw : KeepsPlain p w) (id : DeclId) :
    Plain p (w.classDeclaration id) :=
  plain_of_says (hw.treads.classDeclaration (c := nowhere) trivial id)

end Extract

end IrFacts
