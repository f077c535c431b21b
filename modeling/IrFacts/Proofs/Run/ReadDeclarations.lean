import IrFacts.Proofs.Run.Operation
import IrFacts.Proofs.Run.ReadCode
import IrFacts.Proofs.Types.Parts

/-!
# Declarations in a reading

A declaration is reached, and then passes its type parameters, its types, its
rows and what stands in it. So do the declarations of a file, one by one. What a
reading says of projection it says of the whole walk.
-/

set_option autoImplicit false

namespace IrFacts

namespace Reading

open Extract

variable {p : Program} {ρ : Reading p} {x : ρ.World} {c : Context} {w : Walk} {α : Type}

/-! ## Type parameters and value parameters -/

theorem says_typeParameterOwner (hw : ρ.Treads w) (name : String) (d : Declaration) :
    ρ.Says x (w.typeParameterOwner name d) [] Any := by
  have unexpected : ρ.Says x (do
      complainAt (.typeParameterParent name) d.span
      return Label.placeholder) [] Any :=
    quiet_bind (ρ.says_complainAt (by simp)) fun _ _ _ _ => ρ.says_pure trivial
  refine ρ.says_read ?_
  dsimp only
  split
  · exact says_ite (fun _ => (hw.function _ _).any) fun _ =>
      says_ite (fun _ => (hw.classSource _ _).any) fun _ => unexpected
  · exact unexpected

theorem says_extractTypeParameter (hw : ρ.Treads w) (id : DeclId) :
    ρ.Says x (w.extractTypeParameter id) (p.typeParameterItems id) Any := by
  refine ρ.says_read ?_
  split
  · refine bind_quiet (hw.typeParameter id _) fun label _ _ hl => ?_
    refine quiet_bind (says_typeParameterOwner hw _ _) fun _ _ h₁ _ => ?_
    refine quiet_bind (ρ.says_write (by decide)) fun _ _ h₂ _ => ?_
    exact says_locate _ (by grind)
  · next hnot =>
    refine Says.of_eq (ρ.says_pure trivial) ?_
    unfold Program.typeParameterItems
    split
    · next hd ht => exact (hnot _ _ hd ht).elim
    · rfl

theorem says_typeParameters (hw : ρ.Treads w) (ids : List DeclId) :
    ρ.Says x (ids.forM w.extractTypeParameter) (ids.flatMap p.typeParameterItems) Any :=
  says_forM fun id _ _ _ => says_extractTypeParameter hw id

theorem says_extractValueParameter (hw : ρ.Treads w) (c : Context) (callable : Label)
    (index : Nat) (id : DeclId) :
    ρ.Says x (w.extractValueParameter callable index id) (p.parameterItems c id) Any := by
  refine ρ.says_read ?_
  split
  · next hd =>
    rw [Program.parameterItems, hd]
    refine quiet_bind (hw.valueParameter id x) fun label _ _ hl => ?_
    refine ρ.says_bind (hw.mention c _ _ _) fun _ _ h₁ _ => ?_
    refine quiet_bind (ρ.says_location _ _) fun _ _ h₂ _ => ?_
    refine bind_quiet (ρ.says_row (by decide)) fun _ _ h₃ _ => ?_
    refine quiet_bind (ρ.says_tell (by decide) (by grind)) fun _ _ _ _ => ?_
    exact ρ.says_write (by decide)
  · next hnot =>
    refine Says.of_eq (ρ.says_complain (by simp)) ?_
    unfold Program.parameterItems
    split
    · next hd => exact (hnot _ _ _ _ hd).elim
    · rfl

/-! ## Functions -/

theorem says_constructorRow (hw : ρ.Treads w) (id : DeclId) (f : FunctionDecl)
    (parent : Label) : ρ.Says x (w.constructorRow id f parent) [rowItem "constrs"] ρ.Told := by
  refine ρ.says_read (quiet_bind (hw.erased _ _) fun _ _ _ _ => ?_)
  refine quiet_bind (hw.function id _) fun label _ _ hl => ?_
  exact bind_quiet (ρ.says_row (by decide)) fun _ _ h _ => ρ.says_pure (ρ.told_later hl h)

theorem says_methodRow (hw : ρ.Treads w) (c : Context) (id : DeclId) (f : FunctionDecl)
    (parent : Label) : ρ.Says x (w.methodRow id f parent)
      (c.mentions [f.returnType] ++ ([rowItem "methods"] ++
        c.mentions (f.extensionReceiver.toList.map (Projection.valueType p)))) ρ.Told := by
  refine ρ.says_read (ρ.says_bind (hw.mention c _ _ _) fun _ _ _ _ => ?_)
  refine quiet_bind (hw.function id _) fun label _ _ hl => ?_
  refine ρ.says_bind (ρ.says_row (by decide)) fun _ _ h₁ _ => ?_
  dsimp only
  split
  · next receiver hreceiver =>
    rw [hreceiver]
    refine bind_quiet (hw.mention c _ _ _) fun _ _ h₂ _ => ?_
    exact quiet_bind (ρ.says_write (by decide)) fun _ _ _ _ => ρ.says_pure (by grind)
  · next hnone =>
    rw [hnone]
    exact ρ.says_pure (ρ.told_later hl h₁)

theorem says_body (hw : ρ.Treads w) (hc : ρ.Inside c.inside x) (label : Label) (b : Body) :
    ρ.Says x (w.body label b) (b.statements.flatMap (p.statementItems c)) Any :=
  quiet_bind (says_stmtRow _ _ _) fun _ _ h _ => says_statements hw (ρ.inside_later hc h) _ _ _

theorem says_functionParts (hw : ρ.Treads w) (hc : ρ.Inside c.inside x) (f : FunctionDecl)
    {place label : Label} (hl : ρ.Told label x) : ρ.Says x (do
      write (.hasLocation label place)
      match f.body with
      | some b => w.body label b
      | none => pure ()
      f.valueParameters.zipIdx.forM fun (v, index) => w.extractValueParameter label index v
      return label) (p.bodyItems c f ++ f.valueParameters.flatMap (p.parameterItems c)) Any := by
  have parameters (y : ρ.World) : ρ.Says y (do
      f.valueParameters.zipIdx.forM fun (v, index) => w.extractValueParameter label index v
      return label) (f.valueParameters.flatMap (p.parameterItems c)) Any :=
    bind_quiet (says_zipIdx fun v _ index _ _ =>
      says_extractValueParameter hw c label index v) fun _ _ _ _ => ρ.says_pure trivial
  refine quiet_bind (ρ.says_tell (by decide) hl) fun _ _ h _ => ?_
  dsimp only
  split
  · next b hb =>
    rw [Program.bodyItems, hb]
    exact ρ.says_bind (says_body hw (ρ.inside_later hc h) _ _) fun _ _ _ _ => parameters _
  · next hnone =>
    rw [Program.bodyItems, hnone]
    exact parameters _

theorem says_extractFunction (hw : ρ.Treads w) (c : Context) (parent : Label) (id : DeclId) :
    ρ.Says x (w.extractFunction parent id) (p.functionItems c id) Any := by
  refine ρ.says_read ?_
  split
  · next d f hd hf =>
    rw [Program.functionItems, hd, hf]
    refine Says.reach (ρ.says_inFunction fun y hinside => ?_)
    have hc : ρ.Inside ({ c.within f.typeParameters with inside := true } : Context).inside y :=
      hinside
    refine ρ.says_bind (says_typeParameters hw _) fun _ _ h₁ _ => ?_
    refine quiet_bind (ρ.says_location _ _) fun place _ h₂ _ => ?_
    unfold Program.callableItems
    have hc₂ := ρ.inside_later (ρ.inside_later hc h₁) h₂
    refine says_ite (fun hconstructor => ?_) fun hmethod => ?_
    · rw [if_pos hconstructor]
      exact ρ.says_bind (says_constructorRow hw id f _) fun _ _ h₃ hl =>
        says_functionParts hw (ρ.inside_later hc₂ h₃) f hl
    · rw [if_neg hmethod]
      exact ρ.says_bind (says_methodRow hw _ id f _) fun _ _ h₃ hl =>
        says_functionParts hw (ρ.inside_later hc₂ h₃) f hl
  · next hnot =>
    refine Says.of_eq (quiet_bind (ρ.says_complain (by simp)) fun _ _ _ _ =>
      ρ.says_pure trivial) ?_
    unfold Program.functionItems
    split
    · next hd hf => exact (hnot _ _ hd hf).elim
    · rfl

/-! ## Members -/

theorem says_extractField (hw : ρ.Treads w) (c : Context) (parent : Label) (id : DeclId) :
    ρ.Says x (w.extractField parent id) (p.fieldItems c id) Any := by
  refine ρ.says_read ?_
  split
  · next d f hd hf =>
    rw [Program.fieldItems, hd, hf]
    refine Says.reach ?_
    refine quiet_bind (hw.field id x) fun label _ _ hl => ?_
    refine ρ.says_bind (hw.mention c _ _ _) fun _ _ h₁ _ => ?_
    refine bind_quiet (ρ.says_row (by decide)) fun _ _ h₂ _ => ?_
    exact quiet_bind (says_locate _ (by grind)) fun _ _ _ _ => ρ.says_pure trivial
  · next hnot =>
    refine Says.of_eq (quiet_bind (ρ.says_complain (by simp)) fun _ _ _ _ =>
      ρ.says_pure trivial) ?_
    unfold Program.fieldItems
    split
    · next hd hf => exact (hnot _ _ hd hf).elim
    · rfl

theorem says_getter (hw : ρ.Treads w) (c : Context) (parent label : Label) (external : Bool)
    (v : PropertyDecl) (span : Span) : ρ.Says x (w.getter parent label external v span)
      (v.getter.toList.flatMap (p.functionItems c)) Any := by
  unfold Walk.getter
  split
  · next id hid =>
    rw [hid, Option.toList_some, List.flatMap_singleton]
    exact bind_quiet (says_extractFunction hw c _ _) fun _ _ _ _ => ρ.says_write (by decide)
  · next hnone =>
    rw [hnone]
    exact quiet_when fun _ => ρ.says_complainAt (by simp)

theorem says_setter (hw : ρ.Treads w) (c : Context) (parent label : Label) (external : Bool)
    (v : PropertyDecl) (span : Span) : ρ.Says x (w.setter parent label external v span)
      (v.setter.toList.flatMap (p.functionItems c)) Any := by
  unfold Walk.setter
  split
  · next id hid =>
    rw [hid, Option.toList_some, List.flatMap_singleton]
    refine quiet_when_bind (fun _ => ρ.says_complainAt (by simp)) fun _ _ => ?_
    exact bind_quiet (says_extractFunction hw c _ _) fun _ _ _ _ => ρ.says_write (by decide)
  · next hnone =>
    rw [hnone]
    exact quiet_when fun _ => ρ.says_complainAt (by simp)

theorem says_extractProperty (hw : ρ.Treads w) (c : Context) (parent : Label) (id : DeclId) :
    ρ.Says x (w.extractProperty parent id) (p.propertyItems c id) Any := by
  refine ρ.says_read ?_
  split
  · next v hd =>
    rw [Program.propertyItems, hd]
    refine Says.reach ?_
    refine quiet_bind (hw.property id x) fun label _ _ hl => ?_
    refine quiet_bind (ρ.says_location _ _) fun _ _ h₁ _ => ?_
    refine ρ.says_bind (ρ.says_row (by decide)) fun _ _ h₂ _ => ?_
    refine quiet_bind (ρ.says_tell (by decide) (by grind)) fun _ _ _ _ => ?_
    refine ρ.says_bind (says_getter hw c _ _ _ _ _) fun _ _ _ _ => ?_
    refine ρ.says_bind (says_setter hw c _ _ _ _ _) fun _ _ _ _ => ?_
    split
    · next field hfield =>
      rw [hfield, Option.toList_some, List.flatMap_singleton]
      exact bind_quiet (says_extractField hw c _ _) fun _ _ _ _ => ρ.says_write (by decide)
    · next hnone =>
      rw [hnone]
      exact ρ.says_pure trivial
  · next hnot =>
    refine Says.of_eq (ρ.says_pure trivial) ?_
    unfold Program.propertyItems
    split
    · next hd => exact (hnot _ _ _ _ hd).elim
    · rfl

theorem says_extractEnumEntry (hw : ρ.Treads w) (parent : Label) (id : DeclId) :
    ρ.Says x (w.extractEnumEntry parent id) (p.enumEntryItems id) Any := by
  refine ρ.says_read ?_
  split
  · next hnone =>
    rw [Program.enumEntryItems, hnone]
    exact ρ.says_pure trivial
  · next d hd =>
    rw [Program.enumEntryItems, hd]
    refine Says.reach ?_
    split
    · next hnone =>
      rw [hnone]
      exact ρ.says_complainAt (by simp)
    · next owner k howner =>
      rw [howner]
      refine quiet_when_bind (fun _ => ρ.says_complainAt (by simp)) fun _ _ => ?_
      refine quiet_bind (hw.enumEntry id _) fun label _ _ hl => ?_
      refine quiet_bind (hw.classType owner _) fun _ _ h₁ _ => ?_
      refine bind_quiet (ρ.says_row (by decide)) fun _ _ h₂ _ => ?_
      exact says_locate _ (by grind)

theorem says_extractTypeAlias (hw : ρ.Treads w) (c : Context) (id : DeclId) :
    ρ.Says x (w.extractTypeAlias id) (p.typeAliasItems c id) Any := by
  refine ρ.says_read ?_
  split
  · next v hd =>
    rw [Program.typeAliasItems, hd]
    refine Says.reach ?_
    refine quiet_when_bind (fun _ => ρ.says_complainAt (by simp)) fun _ _ => ?_
    refine quiet_bind (hw.typeAlias id _) fun label _ _ hl => ?_
    refine ρ.says_bind (hw.mention c _ _ _) fun _ _ h₁ _ => ?_
    refine bind_quiet (ρ.says_row (by decide)) fun _ _ h₂ _ => ?_
    exact says_locate _ (by grind)
  · next hnot =>
    refine Says.of_eq (ρ.says_pure trivial) ?_
    unfold Program.typeAliasItems
    split
    · next hd => exact (hnot _ _ _ _ hd).elim
    · rfl

theorem says_extractDeclaration (hw : ρ.Treads w) (hc : ρ.Inside c.inside x) (parent : Label)
    (id : DeclId) : ρ.Says x (w.extractDeclaration parent id) (p.memberItems c id) Any := by
  refine ρ.says_read ?_
  unfold Program.memberItems Program.kind?
  cases hd : p.decl? id with
  | none => exact ρ.says_complain (by simp)
  | some d =>
    dsimp only [Option.map_some]
    cases hkind : d.kind with
    | «class» k => exact bind_quiet (hw.classDeclaration hc id) fun _ _ _ _ => ρ.says_pure trivial
    | function f =>
      exact bind_quiet (says_extractFunction hw c _ _) fun _ _ _ _ => ρ.says_pure trivial
    | initializer i => exact Says.reach (ρ.says_pure trivial)
    | property v => exact says_extractProperty hw c _ _
    | enumEntry e => exact says_extractEnumEntry hw _ _
    | typeAlias v => exact says_extractTypeAlias hw c _
    | field f => exact bind_quiet (says_extractField hw c _ _) fun _ _ _ _ => ρ.says_pure trivial
    | _ => exact Says.reach (ρ.says_complainAt (by simp))

/-! ## Initialization of instances -/

theorem says_initializerRow (hw : ρ.Treads w) (c : Context) (obinit : Label)
    {kind : Trap.ExprKind} (hkind : kind ≠ .typeAccess) (type : IrType) (place parent : Label)
    (index : Int) : ρ.Says x (w.initializerRow obinit kind type place parent index)
      (c.mentions [type]) fun id y => ρ.Drawn kind id y :=
  hw.exprRow (.place place) (hw.mention c _ _) fun h => absurd h hkind

theorem says_initialization (hw : ρ.Treads w) (hc : ρ.Inside c.inside x) (obinit block : Label)
    (index : Nat) (i : Walk.Initialization) :
    ρ.Says x (w.initialization obinit block index i) (p.initializationItems c i) Any := by
  cases i with
  | statement code => exact says_statement hw hc _ _ _
  | field id f value span =>
    refine quiet_bind (ρ.says_location _ _) fun place _ h₁ _ => ?_
    refine quiet_bind (ρ.says_fresh _) fun stmt _ h₂ hstmt => ?_
    refine quiet_bind (ρ.says_write (by decide)) fun _ _ h₃ _ => ?_
    refine quiet_bind (ρ.says_tell (by decide) (ρ.told_later hstmt h₃)) fun _ _ h₄ _ => ?_
    refine ρ.says_bind (says_initializerRow hw c _ (by decide) _ _ _ _) fun assign _ h₅ _ => ?_
    refine ρ.says_bind (says_initializerRow hw c _ (by decide) _ _ _ _) fun left _ h₆ _ => ?_
    have h₁₄ := ρ.later_trans (ρ.later_trans (ρ.later_trans h₁ h₂) h₃) h₄
    have hc₆ := ρ.inside_later hc (ρ.later_trans (ρ.later_trans h₁₄ h₅) h₆)
    refine quiet_bind (hw.field id _) fun _ _ h₇ _ => ?_
    refine quiet_bind (ρ.says_write (by decide)) fun _ _ h₈ _ => ?_
    exact says_expressionSlot hw (by grind) _ _ _

theorem says_extractInitialization (hw : ρ.Treads w) (hc : ρ.Inside c.inside x) (id : DeclId)
    (d : Declaration) (k : ClassDecl) (parent : Label) :
    ρ.Says x (w.extractInitialization id d k parent) (p.obinitItems c id k) Any := by
  refine ρ.says_read ?_
  unfold Program.obinitItems
  refine says_ite (fun hexternal => ?_) fun hown => ?_
  · rw [if_pos hexternal]
    exact ρ.says_pure trivial
  rw [if_neg hown]
  refine says_obinit hw id _ fun obinit _ h₁ hobinit => ?_
  refine quiet_bind (hw.unit _) fun _ _ h₂ _ => ?_
  refine quiet_bind (ρ.says_location _ _) fun place _ h₃ _ => ?_
  change ρ.Says _ _ ([rowItem "methods"] ++
    (Walk.initializations p k).flatMap (p.initializationItems c)) Any
  refine ρ.says_bind (ρ.says_row (by decide)) fun _ _ h₄ _ => ?_
  have hc₄ := ρ.inside_later hc (ρ.later_trans (ρ.later_trans (ρ.later_trans h₁ h₂) h₃) h₄)
  refine quiet_bind (ρ.says_tell (by decide) (by grind)) fun _ _ h₅ _ => ?_
  refine quiet_bind (ρ.says_fresh _) fun block _ h₆ hblock => ?_
  refine quiet_bind (ρ.says_write (by decide)) fun _ _ h₇ _ => ?_
  refine quiet_bind (ρ.says_tell (by decide) (ρ.told_later hblock h₇)) fun _ _ h₈ _ => ?_
  have hc₈ := ρ.inside_later hc₄ (ρ.later_trans (ρ.later_trans (ρ.later_trans h₅ h₆) h₇) h₈)
  rw [Walk.initializeMembers_eq]
  refine ρ.says_read (says_zipIdx fun i _ index _ h => ?_)
  exact says_initialization hw (ρ.inside_later hc₈ h) _ _ index i

/-! ## Classes -/

theorem says_instanceField (hw : ρ.Treads w) (id : DeclId) {field : Label × String}
    (parent place : Label) (hl : ρ.Told field.1 x) :
    ρ.Says x (w.instanceField id field parent place) [rowItem "fields"] Any := by
  refine quiet_bind (hw.classType id _) fun _ _ h₁ _ => ?_
  refine bind_quiet (ρ.says_row (by decide)) fun _ _ h₂ _ => ?_
  refine quiet_bind (ρ.says_tell (by decide) (by grind)) fun _ _ h₃ _ => ?_
  exact ρ.says_addModifiers (by grind)

theorem isSome_companionField? {π : Projection} {id outer : DeclId} {k : ClassDecl} {s t : Session}
    {found : Option (Label × String)} (hk : p.class? id = some k)
    (houter : p.parentClass? id = some outer) (hcompanion : k.isCompanion = true)
    (he : Ends p s (π.companionField? id) found t) : found.isSome := by
  have he := ends_read_bind.mp he
  rw [hk] at he
  dsimp only at he
  rw [houter, hcompanion] at he
  obtain ⟨_, _, -, he⟩ := ends_bind.mp he
  obtain ⟨_, _, -, he⟩ := ends_bind.mp he
  rw [(ends_pure.mp he).1]
  rfl

theorem says_nesting (hw : ρ.Treads w) {id : DeclId} {k : ClassDecl} (hk : p.class? id = some k)
    (label place : Label) :
    ρ.Says x (w.nesting id k label place) (p.companionItems id k) Any := by
  refine ρ.says_read ?_
  unfold Program.companionItems
  split
  · next hnone =>
    rw [hnone]
    exact ρ.says_pure trivial
  · next outer houter =>
    rw [houter]
    refine quiet_bind (hw.classInstance outer _) fun _ _ _ _ => ?_
    refine quiet_bind (ρ.says_write (by decide)) fun _ _ _ _ => ?_
    cases hcompanion : k.isCompanion with
    | false => exact ρ.says_pure trivial
    | true =>
      refine quiet_bind (ρ.says_and (hw.companionField? id _) fun _ _ _ he =>
        isSome_companionField? hk houter hcompanion he) fun found _ _ hfound => ?_
      obtain ⟨hsome, hl⟩ := hfound
      cases found with
      | none => cases hsome
      | some field =>
        exact bind_quiet (says_instanceField hw id _ _ (hl field rfl)) fun _ _ _ _ =>
          ρ.says_write (by decide)

theorem says_writeClassOrInterface {kind : ClassKind} {id : Label} {name : String}
    {package source : Label} (h : ρ.Told id x) :
    ρ.Says x (Projection.writeClassOrInterface kind id name package source) [] Any := by
  have enum (y : ρ.World) :
      ρ.Says y (if kind = .enumClass then write (.isEnumType id) else pure ()) [] Any :=
    quiet_when fun _ => ρ.says_write (by decide)
  exact says_ite (fun _ => quiet_bind (ρ.says_tell (by decide) h) fun _ y _ _ => enum y)
    fun _ => quiet_bind (ρ.says_tell (by decide) h) fun _ y _ _ => enum y

theorem says_classModifiers (id : DeclId) {label : Label} (hl : ρ.Told label x) :
    ρ.Says x (Projection.classModifiers id label) [] Any := by
  refine ρ.says_read ?_
  split
  · exact quiet_when fun _ => ρ.says_addModifiers hl
  · exact ρ.says_pure trivial

theorem says_supertype (hw : ρ.Treads w) (c : Context) (k : ClassDecl) {label : Label}
    (type : IrType) (hl : ρ.Told label x) :
    ρ.Says x (w.supertype k label type) (c.mentions [type]) Any := by
  have problem : ρ.Says x (read >>= fun p => complain (.supertype (p.shortName type false) k.name))
      (c.mentions [type]) Any :=
    Says.of_eq (Says.mentions (ρ.says_read (ρ.says_complain (by simp)))) (List.append_nil _)
  unfold Projection.supertype
  split
  · next id u hid hu =>
    obtain ⟨rfl, hclassifier⟩ := IrType.eq_of_classId? hid hu
    exact bind_quiet (hw.supertype c hclassifier _) fun _ _ h _ =>
      ρ.says_tell (by decide) (ρ.told_later hl h)
  · exact problem

theorem says_supertypes (hw : ρ.Treads w) (c : Context) {id : DeclId} {k : ClassDecl}
    (hk : p.class? id = some k) {label : Label} (hl : ρ.Told label x) :
    ρ.Says x (w.supertypes id label) (c.mentions k.superTypes) Any := by
  refine ρ.says_read ?_
  rw [hk]
  refine Says.of_eq (says_forM fun type _ y h => ?_) (c.mentions_flatMap _)
  exact says_supertype hw c k type (ρ.told_later hl h)

theorem says_classEnd (hw : ρ.Treads w) (c : Context) {id : DeclId} {k : ClassDecl}
    (hk : p.class? id = some k) {label : Label} (hl : ρ.Told label x) : ρ.Says x (do
      Projection.classModifiers id label
      w.supertypes id label
      return label) (c.mentions k.superTypes) Any :=
  quiet_bind (says_classModifiers _ hl) fun _ _ h _ =>
    bind_quiet (says_supertypes hw c hk (ρ.told_later hl h)) fun _ _ _ _ => ρ.says_pure trivial

theorem says_classStep (hw : ρ.Treads w) (hc : ρ.Inside c.inside x) (id : DeclId) :
    ρ.Says x (w.classStep id) (p.classItems c id) Any := by
  refine ρ.says_read ?_
  split
  · next d k hd hk =>
    rw [Program.classItems, hd, hk]
    refine Says.reach ?_
    have within {y : ρ.World} (hy : ρ.Inside c.inside y) :
        ρ.Inside (c.within k.typeParameters).inside y := hy
    refine quiet_bind (hw.classSource id x) fun label _ h₁ hl => ?_
    refine quiet_bind (ρ.says_packageLabel _ _) fun _ _ h₂ _ => ?_
    refine quiet_bind (says_writeClassOrInterface (ρ.told_later hl h₂)) fun _ _ h₃ _ => ?_
    refine quiet_bind (ρ.says_location _ _) fun place _ h₄ _ => ?_
    have h₂₄ := ρ.later_trans (ρ.later_trans h₂ h₃) h₄
    have hl₄ := ρ.told_later hl h₂₄
    refine quiet_bind (ρ.says_tell (by decide) hl₄) fun _ _ h₅ _ => ?_
    have hc₅ := ρ.inside_later hc (ρ.later_trans (ρ.later_trans h₁ h₂₄) h₅)
    refine ρ.says_bind (says_nesting hw hk _ _) fun _ _ h₆ _ => ?_
    refine ρ.says_bind (says_typeParameters hw _) fun _ _ h₇ _ => ?_
    have hc₇ := ρ.inside_later hc₅ (ρ.later_trans h₆ h₇)
    refine ρ.says_bind (says_forM fun member _ _ h =>
      says_extractDeclaration hw (within (ρ.inside_later hc₇ h)) label member) fun _ _ h₈ _ => ?_
    have hc₈ := ρ.inside_later hc₇ h₈
    refine ρ.says_bind (says_extractInitialization hw (within hc₈) _ _ _ _) fun _ y h₉ _ => ?_
    have hl₉ : ρ.Told label y := ρ.told_later hl₄
      (ρ.later_trans (ρ.later_trans (ρ.later_trans (ρ.later_trans h₅ h₆) h₇) h₈) h₉)
    unfold Program.objectItems
    refine says_ite (fun hobject => ?_) fun hnot => ?_
    · rw [if_pos hobject]
      refine quiet_bind (hw.objectField id _) fun field _ h₁₀ hfield => ?_
      refine ρ.says_bind (says_instanceField hw id _ _ hfield) fun _ _ h₁₁ _ => ?_
      refine quiet_bind (ρ.says_write (by decide)) fun _ _ h₁₂ _ => ?_
      exact says_classEnd hw _ hk (ρ.told_later hl₉ (ρ.later_trans (ρ.later_trans h₁₀ h₁₁) h₁₂))
    · rw [if_neg hnot]
      exact says_classEnd hw _ hk hl₉
  · next hnot =>
    refine Says.of_eq (quiet_bind (ρ.says_complain (by simp)) fun _ _ _ _ =>
      ρ.says_pure trivial) ?_
    unfold Program.classItems
    split
    · next hd hk => exact (hnot _ _ hd hk).elim
    · rfl

theorem treads_walk {typeFuel : Nat} (hρ : ρ.Follows (projection typeFuel)) (walkFuel : Nat) :
    ρ.Treads (walk (projection typeFuel) walkFuel) := by
  induction walkFuel with
  | zero => exact ⟨hρ, fun _ _ _ _ => ρ.says_throw, fun _ _ => ρ.says_throw⟩
  | succ walkFuel ih =>
    exact ⟨hρ, fun hc _ slot e => ρ.says_expression (says_expressionStep ih hc slot e),
      fun hc id => ρ.says_classBody (says_classStep ih hc id)⟩

/-! ## Files -/

theorem says_fileClass (file : FileId) (entry : FileEntry) :
    ρ.Says x (Walk.fileClass file entry) [] Any := by
  refine quiet_bind (ρ.says_fileClassLabel x file) fun label _ h₁ hl => ρ.says_read ?_
  refine quiet_bind (ρ.says_wholeFile _) fun _ _ h₂ _ => ?_
  refine quiet_bind (ρ.says_packageLabel _ _) fun _ _ h₃ _ => ?_
  refine quiet_bind (ρ.says_tell (by decide) (by grind)) fun _ _ h₄ _ => ?_
  exact quiet_bind (ρ.says_tell (by decide) (by grind)) fun _ _ _ _ => ρ.says_pure trivial

theorem says_extractFile (hw : ρ.Treads w) (hc : ρ.Inside c.inside x) (file : FileId) :
    ρ.Says x (w.extractFile file) (p.fileItems c file) Any := by
  refine ρ.says_read ?_
  unfold Program.fileItems
  split
  · next hnone =>
    rw [hnone]
    exact ρ.says_complain (by simp)
  · next entry hentry =>
    rw [hentry]
    refine quiet_bind (ρ.says_wholeFile x) fun _ _ h₁ _ => ?_
    refine quiet_bind (ρ.says_packageLabel _ _) fun _ _ h₂ _ => ?_
    refine ρ.says_get (fun s t h => by rw [h.target]) fun s htarget _ => ?_
    refine quiet_bind (ρ.says_tell (by decide) htarget) fun _ _ h₃ _ => ?_
    refine quiet_bind (ρ.says_write (by decide)) fun _ _ h₄ _ => ?_
    have hc₄ := ρ.inside_later hc (ρ.later_trans (ρ.later_trans (ρ.later_trans h₁ h₂) h₃) h₄)
    dsimp only
    refine says_ite (fun _ => ?_) fun hempty => ?_
    · refine quiet_bind (says_fileClass file entry) fun parent _ h₅ _ => ?_
      exact says_forM fun id _ _ h =>
        says_extractDeclaration hw (ρ.inside_later hc₄ (ρ.later_trans h₅ h)) parent id
    · have hnone : entry.declarations = [] := List.isEmpty_iff.mp (by simpa using hempty)
      rw [hnone]
      exact ρ.says_pure trivial

/-! ## Operations -/

theorem Says.forget {m : Extract α} {items : List WalkItem} {Q : α → ρ.World → Prop}
    (h : ρ.Says x m items Q) : ρ.Says x (do let _ ← m) items Any :=
  bind_quiet h fun _ _ _ _ => ρ.says_pure trivial

/-- A reading that follows what is asked for follows whatever a session is driven by. -/
theorem exists_says (hw : ρ.Treads w)
    (hask : ∀ (r : Reference) x, ρ.Says x (r.ask w.toProjection) [] Any) (c : Context)
    (op : Operation) :
    ∃ items, ∀ x, ρ.Inside c.inside x → ρ.Says x (op.perform w) items Any := by
  cases op with
  | refer r => exact ⟨_, fun x _ => (hask r x).forget⟩
  | file id => exact ⟨_, fun x hc => says_extractFile hw hc id⟩
  | declaration parent id => exact ⟨_, fun x hc => says_extractDeclaration hw hc parent id⟩
  | classSource id => exact ⟨_, fun x hc => (hw.classDeclaration hc id).forget⟩
  | function parent id => exact ⟨_, fun x _ => (says_extractFunction hw c parent id).forget⟩
  | field parent id => exact ⟨_, fun x _ => (says_extractField hw c parent id).forget⟩
  | property parent id => exact ⟨_, fun x _ => says_extractProperty hw c parent id⟩
  | enumEntry parent id => exact ⟨_, fun x _ => says_extractEnumEntry hw parent id⟩
  | typeAlias id => exact ⟨_, fun x _ => says_extractTypeAlias hw c id⟩
  | statement callable parent index code =>
    exact ⟨_, fun x hc => says_statement hw hc parent index code⟩
  | expression callable slot e => exact ⟨_, fun x hc => hw.expression hc callable slot e⟩

end Reading

end IrFacts
