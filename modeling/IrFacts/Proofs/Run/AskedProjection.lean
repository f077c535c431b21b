import IrFacts.Extraction.Members
import IrFacts.Proofs.Run.Asks
import IrFacts.Proofs.Run.Operation

/-!
# Projection asks

Projecting types, and labelling classes and members, is put together from questions. This holds
of every operation if it holds of the three through which the circles pass, and so it holds with
any fuel. What defines a class or an array stays off the code.
-/

set_option autoImplicit false

namespace IrFacts

namespace Extract

open Event

variable {α : Type} {p : Program} {π : Projection}

theorem aside_write {r : String} {args : List Trap.Arg} (hi : r ∉ Trap.introducingRelations)
    (hn : r ∉ Trap.nodeRelations) : Aside p (write ⟨r, args⟩) :=
  scripted_write (aside_fact hi hn)

theorem aside_labelFor {start rest : String} (h : Trap.Unintroduced start) :
    Aside p (labelFor (start ++ rest)) :=
  scripted_labelFor (plainKey_append h rest)

theorem asks_keyed {start rest : String} (h : Trap.Unintroduced start) :
    Asks p (labelFor (start ++ rest)) :=
  asks_labelFor (plainKey_append h rest)

/-! ## Labels that need no types -/

theorem asks_packageLabel (name : String) : Asks p (packageLabel name) :=
  asks_fact (scripted_introduceOnly
    (Trap.introducedBy?_append ("package;", "packages") (by decide) name))

theorem asks_modifierLabel (name : String) : Asks p (modifierLabel name) :=
  asks_fact (scripted_introduceOnly
    (Trap.introducedBy?_append ("modifier;", "modifiers") (by decide) name))

theorem aside_addModifiers (entity : Label) (names : List String) :
    Aside p (addModifiers entity names) :=
  scripted_forM fun name => scripted_bind (asks_modifierLabel name).aside fun _ =>
    aside_write (by decide) (by decide)

theorem asks_namedClass (package name : String) : Asks p (namedClass package name) :=
  asks_bind (asks_packageLabel package) fun _ =>
    asks_fact (scripted_labelWith (plainKey_append (by decide) _) fun _ =>
      aside_write (by decide) (by decide))

theorem asks_fileClassLabel (file : FileId) : Asks p (fileClassLabel file) := by
  apply asks_read
  split
  · exact asks_keyed (by decide)
  · exact .pure _

theorem asks_scheduleIfExternal (id : DeclId) : Asks p (scheduleIfExternal id) :=
  asks_read (asks_ite (.schedule id) (.pure _))

/-! ## The circles -/

/-- The operations that projection needs of itself are questions, and keep to the scope without
any condition. -/
structure Stable (p : Program) (π : Projection) : Prop extends Scope.widest.Covers p π where
  asksType : ∀ primitives type, Asks p (π.type primitives type)
  asksInstance : ∀ id arguments, Asks p (π.classInstance id arguments)
  asksParent : ∀ parent, Asks p (π.parent parent)

theorem asks_hostLabel (hπ : Stable p π) (type : IrType) : Asks p (π.hostLabel type) :=
  asks_bind (hπ.asksType true type) fun _ => .pure _

/-! ## Type arguments -/

theorem grows_extractWildcard (kind : Trap.WildcardKind) (name : String) (bound label : Label) :
    Grows p (do
      write (.wildcards label name kind)
      write (.hasLocation label (← unknownLocation))
      let _ ← labelWith ("bound;0;" ++ label.braced) fun b =>
        write (.typeBounds b bound 0 label)) :=
  grows_of_does fun s =>
    Scope.does_extractWildcard (Scope.widest_knows s label) (Scope.widest_knows s bound)

theorem asks_wildcard {kind : Trap.WildcardKind} {key : String} (argument : TypeArgument)
    (bound : Label) (hkey : Trap.introducedBy? key = some "wildcards") :
    Asks p (Projection.wildcard kind key argument bound) := by
  refine asks_read (.label (.introduce hkey fun id => ?_) fun id =>
    grows_extractWildcard _ _ _ id)
  refine scripted_bind scripted_unknownLocation fun _ =>
    scripted_bind (aside_write (by decide) (by decide)) fun _ =>
      scripted_bind (scripted_introduceOnly ?_) fun _ => .pure _
  have hbound : "bound;0;" ++ id.braced = "bound;" ++ ("0;" ++ id.braced) := by
    rw [← String.append_assoc]
    rfl
  rw [hbound]
  exact Trap.introducedBy?_append ("bound;", "typeBounds") (by decide) _

theorem introducedBy?_wildcard (rest : String) :
    Trap.introducedBy? ("wildcard;" ++ rest) = some "wildcards" :=
  Trap.introducedBy?_append ("wildcard;", "wildcards") (by decide) rest

theorem asks_argument (hπ : Stable p π) (a : TypeArgument) : Asks p (π.argument a) := by
  cases a with
  | star =>
    refine asks_read (asks_bind (hπ.asksType _ _) fun _ => asks_wildcard _ _ ?_)
    exact introducedBy?_wildcard ""
  | projection variance type =>
    apply asks_bind (hπ.asksType false type)
    intro v
    cases variance with
    | invariant => exact .pure _
    | covariant =>
      refine asks_wildcard _ _ ?_
      have hkey : "wildcard;extends" = "wildcard;" ++ "extends" := rfl
      rw [hkey, String.append_assoc]
      exact introducedBy?_wildcard _
    | contravariant =>
      refine asks_wildcard _ _ ?_
      have hkey : "wildcard;super" = "wildcard;" ++ "super" := rfl
      rw [hkey, String.append_assoc]
      exact introducedBy?_wildcard _

/-! ## Classes -/

theorem asks_arguments (hπ : Stable p π) (arguments : List TypeArgument) (name : String) :
    Asks p (arguments.foldlM
      (fun text a => do return text ++ ";" ++ (← π.argument a).braced) name) :=
  asks_foldlM (fun _ a => asks_bind (asks_argument hπ a) fun _ => .pure _) name

theorem asks_instanceName (hπ : Stable p π) (id : DeclId) (arguments : List TypeArgument) :
    Asks p (π.instanceName id arguments) :=
  asks_read (asks_arguments hπ arguments _)

theorem asks_classSource (hπ : Stable p π) (id : DeclId) : Asks p (π.classSource id) :=
  asks_bind (asks_instanceName hπ id []) fun _ => asks_keyed (by decide)

theorem aside_writeClassOrInterface (kind : ClassKind) (id : Label) (name : String)
    (package source : Label) :
    Aside p (Projection.writeClassOrInterface kind id name package source) := by
  have enum : Aside p (if kind = .enumClass then write (.isEnumType id) else pure ()) :=
    scripted_ite (aside_write (by decide) (by decide)) (.pure _)
  exact scripted_ite (scripted_bind (aside_write (by decide) (by decide)) fun _ => enum)
    (scripted_bind (aside_write (by decide) (by decide)) fun _ => enum)

theorem aside_classModifiers (id : DeclId) (label : Label) :
    Aside p (Projection.classModifiers id label) := by
  apply scripted_read
  split
  · exact scripted_ite (aside_addModifiers _ _) (.pure _)
  · exact .pure _

theorem aside_supertypes (hπ : Stable p π) (id : DeclId) (label : Label) :
    Aside p (π.supertypes id label) := by
  apply scripted_read
  split
  · apply scripted_forM
    intro type
    unfold Projection.supertype
    split
    · exact scripted_bind (hπ.asksInstance _ _).aside fun _ =>
        aside_write (by decide) (by decide)
    · exact scripted_read (scripted_complain nofun)
  · exact .pure _

theorem aside_extractInstance (hπ : Stable p π) (id : DeclId) (arguments : List TypeArgument)
    (label : Label) : Aside p (π.extractInstance id arguments label) := by
  apply scripted_read
  split
  · refine scripted_bind (asks_packageLabel _).aside fun _ => ?_
    refine scripted_bind (asks_classSource hπ id).aside fun _ => ?_
    refine scripted_bind (aside_writeClassOrInterface _ _ _ _ _) fun _ => ?_
    refine scripted_bind (scripted_forM fun a => ?_) fun _ => ?_
    · exact scripted_bind (asks_argument hπ a.1).aside fun _ =>
        aside_write (by decide) (by decide)
    refine scripted_bind (aside_write (by decide) (by decide)) fun _ => ?_
    refine scripted_bind (aside_write (by decide) (by decide)) fun _ => ?_
    refine scripted_bind (aside_classModifiers id label) fun _ => ?_
    refine scripted_bind (aside_supertypes hπ id label) fun _ => ?_
    exact scripted_locate label _
  · exact .pure _

theorem grows_classInstance (hπ : Stable p π) (id : DeclId) (arguments : List TypeArgument)
    (label : Label) : Grows p (do
      if !arguments.isEmpty then
        inFileOf (p.onHost id) false (π.extractInstance (p.onHost id) arguments label)
      Scope.introducing p id) := by
  refine grows_when_bind (grows_of_does (Q := Scope.Any) fun s => ?_) (grows_introducing id)
  have hp := Scope.widest_allows p
  exact Scope.does_inFileOf hp (fun t _ => Scope.does_extractInstance hπ.toCovers hp
    (Scope.widest_knows t label)) fun _ _ _ _ _ => trivial

theorem aside_introducing (id : DeclId) : Aside p (Scope.introducing p id) := by
  refine scripted_bind (asks_scheduleIfExternal id).aside fun _ => ?_
  split
  · exact (asks_scheduleIfExternal _).aside
  · exact .pure _

theorem asks_classInstanceStep (hπ : Stable p π) (id : DeclId)
    (arguments : List TypeArgument) : Asks p (π.classInstanceStep id arguments) := by
  refine asks_read (asks_bind (asks_instanceName hπ _ _) fun name => ?_)
  refine asks_bind (.label ?_ fun label => grows_classInstance hπ id arguments label)
    fun _ => .pure _
  refine scripted_labelWith (plainKey_append (by decide) _) fun label => ?_
  exact scripted_when_bind (scripted_inFileOf _ _ (aside_extractInstance hπ _ _ _))
    (aside_introducing id)

/-! ## Simple types -/

theorem asks_richType (name : String) (classLabel : Label) (nullable : Bool) :
    Asks p (Projection.richType name classLabel nullable) :=
  asks_ite
    (asks_bind (asks_fact (scripted_introduceOnly
      (Trap.introducedBy?_append ("kt_type;nullable;", "kt_nullable_types") (by decide) name)))
      fun _ => .pure _)
    (asks_bind (asks_fact (scripted_introduceOnly
      (Trap.introducedBy?_append ("kt_type;notnull;", "kt_notnull_types") (by decide) name)))
      fun _ => .pure _)

theorem asks_classType (hπ : Stable p π) (id : DeclId) (arguments : List TypeArgument)
    (nullable : Bool) : Asks p (π.classType id arguments nullable) :=
  asks_bind (hπ.asksInstance id arguments) fun _ => asks_read <|
    asks_bind (asks_instanceName hπ id arguments) fun _ =>
      asks_bind (asks_richType _ _ _) fun _ => .pure _

theorem asks_primitiveHost (info : Builtins.PrimitiveInfo) (allowed : Bool) :
    Asks p (Projection.primitiveHost info allowed) := by
  unfold Projection.primitiveHost
  split
  · exact asks_bind (asks_fact (scripted_introduceOnly
      (Trap.introducedBy?_append ("type;", "primitives") (by decide) _))) fun _ => .pure _
  · exact asks_bind (asks_namedClass _ _) fun _ => .pure _

theorem asks_primitiveType (hπ : Stable p π) (info : Builtins.PrimitiveInfo) (id : DeclId)
    (nullable primitives : Bool) : Asks p (π.primitiveType info id nullable primitives) :=
  asks_bind (asks_primitiveHost info _) fun _ =>
    asks_bind (hπ.asksInstance id []) fun _ =>
      asks_bind (asks_richType _ _ _) fun _ => .pure _

/-! ## Arrays -/

theorem grows_extractArray (hπ : Stable p π) (array : SimpleType) (name : String) (levels : Nat)
    (element component l : Label) :
    Grows p (π.extractArray array name levels element component l) :=
  grows_of_does (Q := Scope.Any) fun s => Scope.does_extractArray hπ.toCovers
    (Scope.widest_knows s element) (Scope.widest_knows s component) (Scope.widest_knows s l)

theorem asks_arrayLabel (hπ : Stable p π) (array : SimpleType) (name : String) (levels : Nat)
    (element component : Label) :
    Asks p (labelWith ("array;" ++ toString levels ++ ";" ++ element.braced)
      (π.extractArray array name levels element component)) := by
  rw [String.append_assoc, String.append_assoc]
  refine .label ?_ fun l => grows_extractArray hπ _ _ _ _ _ l
  apply scripted_introduce_read (Trap.introducedBy?_append ("array;", "arrays") (by decide) _)
  intro label
  have hrest : Aside p (do
      let length ← labelFor ("field;" ++ label.braced ++ ";length")
      let int ← π.type true (p.builtinType "Int")
      write (.fields length "length" int.host.label int.rich.label label length)
      let result ← π.type true (IrType.simple (p.cloneType array)).makeNullable
      let clone ← labelFor ("callable;" ++ label.braced ++ ".clone()" ++ label.braced)
      write (.methods clone "clone" "clone()" label result.rich.label label clone)) := by
    simp only [String.append_assoc]
    refine scripted_bind (aside_labelFor (by decide)) fun _ => ?_
    refine scripted_bind (hπ.asksType _ _).aside fun _ => ?_
    refine scripted_bind (aside_write (by decide) (by decide)) fun _ => ?_
    refine scripted_bind (hπ.asksType _ _).aside fun _ => ?_
    refine scripted_bind (aside_labelFor (by decide)) fun _ => ?_
    exact aside_write (by decide) (by decide)
  dsimp only
  split
  · exact scripted_bind (aside_supertypes hπ _ _) fun _ => hrest
  · exact hrest

theorem asks_arrayType (hπ : Stable p π) (array : SimpleType) : Asks p (π.arrayType array) := by
  refine asks_read <| asks_bind (asks_hostLabel hπ _) fun component => ?_
  refine asks_bind (asks_hostLabel hπ _) fun element => ?_
  refine asks_bind (asks_arrayLabel hπ _ _ _ _ _) fun label => ?_
  split
  · exact asks_bind (asks_classType hπ _ _ _) fun _ => .pure _
  · exact .pure _

/-! ## Members -/

theorem asks_scheduleOwner (steps : Nat) (id : DeclId) :
    Asks p (Projection.scheduleOwner steps id) := by
  induction steps generalizing id with
  | zero => exact .throw _
  | succ steps ih =>
    apply asks_read
    split
    · exact asks_ite (.schedule _) (asks_ite (ih _) (asks_complain nofun))
    · exact .pure _
    · exact asks_complain nofun

theorem asks_callableKey (hπ : Stable p π) (parent : DeclParent) (name : String)
    (parameters : List IrType) (result : IrType) :
    Asks p (π.callableKey parent name parameters result) :=
  asks_read <| asks_bind
    (asks_mapM fun _ => asks_bind (asks_hostLabel hπ _) fun _ => .pure _)
    fun _ => asks_bind (asks_hostLabel hπ _) fun _ =>
      asks_bind (hπ.asksParent parent) fun _ => .pure _

theorem callableKey_start {parent : DeclParent} {name key : String} {parameters : List IrType}
    {result : IrType} {s s' : Session}
    (he : Ends p s (π.callableKey parent name parameters result) key s') :
    "callable;".toList <+: key.toList := by
  obtain ⟨_, _, _, he⟩ := ends_bind.mp (ends_read_bind.mp he)
  obtain ⟨_, _, _, he⟩ := ends_bind.mp he
  obtain ⟨_, _, _, he⟩ := ends_bind.mp he
  obtain ⟨rfl, -⟩ := ends_pure.mp he
  simp only [String.append_assoc]
  rw [String.toList_append]
  exact List.prefix_append _ _

theorem asks_function (hπ : Stable p π) (id : DeclId) : Asks p (π.function id) := by
  apply asks_read
  split
  · refine asks_bind_of (asks_callableKey hπ _ _ _ _) (fun _ _ _ => callableKey_start)
      fun key hkey => ?_
    refine asks_bind (asks_labelFor (plainKey_of_start (by decide) hkey)) fun label => ?_
    exact asks_when_bind (asks_scheduleOwner _ _) (.pure _)
  · exact asks_bind (asks_complain nofun) fun _ => .pure _

theorem asks_parentStep (hπ : Stable p π) (parent : DeclParent) :
    Asks p (π.parentStep parent) := by
  cases parent with
  | file file => exact asks_fileClassLabel file
  | package name => exact asks_packageLabel name
  | decl id =>
    apply asks_read
    split
    · exact asks_classSource hπ id
    · exact asks_function hπ id
    · exact asks_bind (asks_complain nofun) fun _ => .pure _

/-! ## Type parameters -/

theorem asks_typeParameterKey? (hπ : Stable p π) (id : DeclId) :
    Asks p (π.typeParameterKey? id) := by
  apply asks_read
  split
  · exact asks_bind (hπ.asksParent _) fun _ => .pure _
  · exact .pure _

theorem typeParameterKey?_start {id : DeclId} {found : Option String} {s s' : Session}
    (he : Ends p s (π.typeParameterKey? id) found s') :
    ∀ key ∈ found, "typevar;".toList <+: key.toList := by
  have he := ends_read_bind.mp he
  rintro key hkey
  split at he
  · obtain ⟨_, _, _, he⟩ := ends_bind.mp he
    obtain ⟨rfl, -⟩ := ends_pure.mp he
    obtain rfl := Option.mem_some.mp hkey
    simp only [String.append_assoc]
    rw [String.toList_append]
    exact List.prefix_append _ _
  · obtain ⟨rfl, -⟩ := ends_pure.mp he
    cases hkey

theorem asks_typeParameter (hπ : Stable p π) (id : DeclId) : Asks p (π.typeParameter id) := by
  apply asks_bind_of (asks_typeParameterKey? hπ id) (fun _ _ _ => typeParameterKey?_start)
  intro found hfound
  cases found with
  | some key => exact asks_labelFor (plainKey_of_start (by decide) (hfound key rfl))
  | none => exact .pure _

theorem asks_typeParameterUse (hπ : Stable p π) (id : DeclId) :
    Asks p (π.typeParameterUse id) := by
  apply asks_bind_of (asks_typeParameterKey? hπ id) (fun _ _ _ => typeParameterKey?_start)
  intro found hfound
  cases found with
  | none => exact asks_bind (asks_complain nofun) fun _ => .pure _
  | some key => exact .found (plainKey_of_start (by decide) (hfound key rfl))

theorem asks_typeParameterType (hπ : Stable p π) (id : DeclId) (nullable : Bool) :
    Asks p (π.typeParameterType id nullable) :=
  asks_read <| asks_bind (asks_typeParameterUse hπ id) fun _ =>
    asks_bind (asks_namedClass _ _) fun _ =>
      asks_bind (asks_richType _ _ _) fun _ => .pure _

/-! ## The step of a type -/

theorem asks_simpleType (hπ : Stable p π) (primitives : Bool) (type : SimpleType) :
    Asks p (π.simpleType primitives type) := by
  refine asks_read (asks_when_bind (asks_complain nofun) ?_)
  split
  · exact asks_typeParameterType hπ _ _
  · split
    · exact asks_bind (asks_complain nofun) fun _ => .pure _
    · split
      · exact asks_primitiveType hπ _ _ _ _
      · exact asks_ite (asks_arrayType hπ _) (asks_classType hπ _ _ _)

theorem asks_typeStep (hπ : Stable p π) (primitives : Bool) (type : IrType) :
    Asks p (π.typeStep primitives type) := by
  cases type with
  | simple type => exact asks_simpleType hπ primitives type
  | error description => exact asks_bind (asks_complain nofun) fun _ => .pure _

theorem stable_projection (p : Program) (fuel : Nat) : Stable p (projection fuel) := by
  induction fuel with
  | zero =>
    exact ⟨Scope.widest_covers p 0, fun _ _ => .throw _, fun _ _ => .throw _, fun _ => .throw _⟩
  | succ fuel ih =>
    exact ⟨Scope.widest_covers p (fuel + 1),
      fun primitives type => asks_typeStep ih primitives type,
      fun id arguments => asks_classInstanceStep ih id arguments,
      fun parent => asks_parentStep ih parent⟩

/-! ## Members and variables -/

theorem asks_member (hπ : Stable p π) {kind : String}
    (hkind : Trap.Unintroduced (kind ++ ";")) (id : DeclId) : Asks p (π.member kind id) := by
  apply asks_read
  split
  · exact .pure _
  · refine asks_bind (hπ.asksParent _) fun _ => ?_
    rw [String.append_assoc, String.append_assoc]
    exact asks_keyed hkind

theorem asks_valueParameter (hπ : Stable p π) (id : DeclId) : Asks p (π.valueParameter id) := by
  apply asks_read
  split
  · apply asks_when_bind (asks_complainAt (by simp) _)
    refine asks_bind (hπ.asksParent _) fun _ => ?_
    simp only [String.append_assoc]
    exact asks_keyed (by decide)
  · exact asks_bind (asks_complain nofun) fun _ => .pure _

/-- A variable has no key: its label is in the session. -/
theorem aside_localVariable (id : DeclId) : Aside p (Projection.localVariable id) := by
  refine .look (fun s t h => by rw [h.locals]) fun s => ?_
  split
  · exact .pure _
  · exact scripted_bind (scripted_fresh trivial) fun label =>
      scripted_bind (scripted_modify (.named id label) trivial fun _ => rfl) fun _ => .pure _

theorem aside_value (hπ : Stable p π) (id : DeclId) : Aside p (π.value id) := by
  apply scripted_read
  split
  · exact (asks_valueParameter hπ id).aside
  · exact aside_localVariable id
  · exact scripted_bind (scripted_complain nofun) fun _ => .pure _

theorem asks_companionField? (hπ : Stable p π) (id : DeclId) : Asks p (π.companionField? id) := by
  apply asks_read
  split
  · exact .pure _
  · split
    · refine asks_bind (hπ.asksInstance _ _) fun _ => ?_
      simp only [String.append_assoc]
      exact asks_bind (asks_keyed (by decide)) fun _ => .pure _
    · exact asks_bind (asks_complain nofun) fun _ => .pure _

theorem asks_objectField (hπ : Stable p π) (id : DeclId) : Asks p (π.objectField id) := by
  apply asks_read
  dsimp only
  apply asks_when_bind (asks_complain (by simp))
  refine asks_bind (hπ.asksInstance _ _) fun _ => ?_
  simp only [String.append_assoc]
  exact asks_bind (asks_keyed (by decide)) fun _ => .pure _

/-! ## References -/

/-- A reference is a question, unless it is one to a variable. -/
theorem asks_ask (hπ : Stable p π) {r : Reference} (hr : ∀ id, r ≠ .localVariable id) :
    Asks p (r.ask π) := by
  cases r with
  | type t => exact asks_bind (hπ.asksType true t) fun _ => .pure _
  | referenceType t => exact asks_bind (hπ.asksType false t) fun _ => .pure _
  | classInstance id arguments =>
    exact asks_bind (hπ.asksInstance id arguments) fun _ => .pure _
  | classSource id => exact asks_bind (asks_classSource hπ id) fun _ => .pure _
  | function id => exact asks_bind (asks_function hπ id) fun _ => .pure _
  | field id => exact asks_bind (asks_member hπ (by decide) id) fun _ => .pure _
  | property id => exact asks_bind (asks_member hπ (by decide) id) fun _ => .pure _
  | enumEntry id => exact asks_bind (asks_member hπ (by decide) id) fun _ => .pure _
  | typeAlias id => exact asks_bind (asks_member hπ (by decide) id) fun _ => .pure _
  | typeParameter id => exact asks_bind (asks_typeParameterUse hπ id) fun _ => .pure _
  | valueParameter id => exact asks_bind (asks_valueParameter hπ id) fun _ => .pure _
  | localVariable id => exact absurd rfl (hr id)

theorem aside_ask (hπ : Stable p π) (r : Reference) : Aside p (r.ask π) := by
  by_cases hr : ∃ id, r = .localVariable id
  · obtain ⟨id, rfl⟩ := hr
    exact scripted_bind (aside_localVariable id) fun _ => .pure _
  · exact (asks_ask hπ fun id hid => hr ⟨id, hid⟩).aside

end Extract

end IrFacts
