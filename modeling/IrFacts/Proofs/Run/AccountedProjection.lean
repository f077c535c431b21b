import IrFacts.Extraction.Members
import IrFacts.Proofs.Run.Account
import IrFacts.Proofs.Run.AskedProjection
import IrFacts.Proofs.Types.Parts

/-!
# Projection under an account

Nothing in projection is a step of the walk. Most of it is calm under every
account. What is not is left to the account: the definition of a class with
arguments, that of an array, and the mention of a type parameter. An account may
look after some types only, as long as it also looks after the types that these
lead to.
-/

set_option autoImplicit false

namespace IrFacts

structure Vocabulary (p : Program) where
  Has : IrType → Prop
  Parameter : DeclId → Prop
  bare : ∀ id nullable, Has (.simple { classifier := .ofClass id, nullable })
  error : ∀ description, Has (.error description)
  like : ∀ {s t : SimpleType}, Has (.simple s) → t.classifier = s.classifier →
    t.arguments = s.arguments → Has (.simple t)
  argument : ∀ {s : SimpleType} {variance type}, Has (.simple s) →
    .projection variance type ∈ s.arguments → Has type
  clone : ∀ {s : SimpleType}, Has (.simple s) → p.isArray s = true →
    Has (.simple (p.cloneType s))
  erase : ∀ type, Has (p.erase type)
  /-- The supertypes of what is labelled with its arguments. -/
  ofInstance : ∀ {s : SimpleType} {id c}, Has (.simple s) → s.classifier = .ofClass id →
    s.arguments ≠ [] → p.class? (p.onHost id) = some c → ∀ type ∈ c.superTypes, Has type
  ofArray : ∀ {s : SimpleType} {id c}, Has (.simple s) → s.classifier = .ofClass id →
    p.isArray s = true → p.class? id = some c → ∀ type ∈ c.superTypes, Has type
  ofTypeParameter : ∀ {s : SimpleType} {id}, Has (.simple s) →
    s.classifier = .ofTypeParameter id → Parameter id

namespace Vocabulary

def whole (p : Program) : Vocabulary p where
  Has _ := True
  Parameter _ := True
  bare _ _ := trivial
  error _ := trivial
  like _ _ _ := trivial
  argument _ _ := trivial
  clone _ _ := trivial
  erase _ := trivial
  ofInstance _ _ _ _ _ _ := trivial
  ofArray _ _ _ _ _ _ := trivial
  ofTypeParameter _ _ := trivial

variable {p : Program} (v : Vocabulary p) {type : IrType}

theorem builtinType (name : String) : v.Has (p.builtinType name) := by
  unfold Program.builtinType
  split
  · exact v.bare _ _
  · exact v.error _

theorem nullable (h : v.Has type) : v.Has type.makeNullable := by
  cases type with
  | simple s => exact v.like h rfl rfl
  | error description => exact v.error _

theorem topType : v.Has p.topType := v.nullable (v.builtinType "Any")

theorem boxed (h : v.Has type) (isPrimitive : Bool) :
    v.Has (Projection.boxed p isPrimitive type) := by
  unfold Projection.boxed
  split
  · exact v.nullable h
  · exact h

theorem arrayElement {s : SimpleType} (h : v.Has (.simple s)) : v.Has (p.arrayElement s) :=
  Program.arrayElement_of (fun _ _ => v.argument h) (fun _ _ => v.builtinType _) v.topType

theorem arrayCore (h : v.Has type) : v.Has (p.arrayCore type).element :=
  Program.arrayCore_of h (fun _ _ _ hs => v.argument hs) (fun _ _ _ => v.builtinType _) v.topType

end Vocabulary


namespace Account

open Extract

variable {p : Program} {a : Account p} {s t : Session} {π : Projection} {v : Vocabulary p}

/-! ## Labels that need no types -/

theorem quiet_packageLabel (name : String) : a.Quiet s (packageLabel name) Any :=
  (quiet_labelWith (a.not_kept (by decide) _) fun _ _ _ _ => quiet_write (by decide)).any

theorem quiet_addModifiers (entity : Label) (names : List String) :
    a.Quiet s (addModifiers entity names) Any :=
  quiet_forM fun _ _ _ _ => quiet_bind
    (quiet_labelWith (a.not_kept (by decide) _) fun _ _ _ _ => quiet_write (by decide))
    fun _ _ _ _ => quiet_write (by decide)

theorem quiet_namedClass {package name : String} (h : ¬a.kept ("class;" ++ qualify package name)) :
    a.Quiet s (namedClass package name) Any :=
  quiet_bind (quiet_packageLabel package) fun _ _ _ _ =>
    (quiet_labelWith h fun _ _ _ hl => quiet_tell (by decide) hl).any

theorem quiet_fileClassLabel (file : FileId) : a.Quiet s (fileClassLabel file) a.Told := by
  refine walks_read ?_
  split
  · next entry hentry => exact quiet_labelFor (a.kept_file file entry hentry)
  · exact fun hs => quiet_pure (Session.open_placeholder hs.faithful) hs

theorem quiet_scheduleIfExternal (id : DeclId) : a.Quiet s (scheduleIfExternal id) Any :=
  walks_read (quiet_when fun _ => quiet_schedule id)

theorem quiet_placeholder : a.Quiet s (pure .placeholder) a.Told :=
  fun hs => quiet_pure (Session.open_placeholder hs.faithful) hs

/-- What is not as it should be is reported, and the placeholder stands for it. -/
theorem quiet_complain_placeholder {problem : Problem}
    (h : ∀ key, problem ≠ .missingTypeParameter key) :
    a.Quiet s (complain problem >>= fun _ => pure .placeholder) a.Told :=
  quiet_bind (quiet_complain h) fun _ _ _ _ => quiet_placeholder

/-! ## The circles -/

/-- The operations that projection needs of itself are no steps of the walk. -/
structure Keeps (a : Account p) (v : Vocabulary p) (π : Projection) : Prop where
  type : ∀ {type}, v.Has type → ∀ primitives s, a.Quiet s (π.type primitives type) Any
  classInstance : ∀ {id arguments}, v.Has (.simple { classifier := .ofClass id, arguments }) →
    ∀ s, a.Quiet s (π.classInstance id arguments) Any
  parent : ∀ parent s, a.Quiet s (π.parent parent) Any

theorem quiet_hostLabel (hπ : a.Keeps v π) {type : IrType} (h : v.Has type) :
    a.Quiet s (π.hostLabel type) Any :=
  quiet_bind (hπ.type h true s) fun _ _ _ _ => quiet_pure trivial

/-! ## Type arguments -/

theorem quiet_wildcard {kind : Trap.WildcardKind} {key : String} (argument : TypeArgument)
    (bound : Label) (h : ¬a.kept key) :
    a.Quiet s (Projection.wildcard kind key argument bound) Any := by
  refine walks_read (quiet_labelWith h fun id _ _ hid => ?_).any
  refine quiet_bind (quiet_write (by decide)) fun _ _ h₁ _ => ?_
  refine quiet_bind quiet_unknownLocation fun _ _ h₂ _ => ?_
  refine quiet_bind (quiet_tell (by decide) (h₂.told (h₁.told hid))) fun _ _ _ _ => ?_
  refine quiet_bind (quiet_labelWith ?_ fun _ _ _ _ => quiet_write (by decide))
    fun _ _ _ _ => quiet_pure trivial
  exact a.not_kept (by decide) _

theorem quiet_argument (hπ : a.Keeps v π) {argument : TypeArgument}
    (h : ∀ variance type, argument = .projection variance type → v.Has type) :
    a.Quiet s (π.argument argument) Any := by
  cases argument with
  | star =>
    have hkey : ¬a.kept ("wildcard;" ++ "") := a.not_kept (by decide) ""
    refine walks_read (quiet_bind (hπ.type (v.builtinType "Any") false s) fun _ _ _ _ => ?_)
    exact quiet_wildcard _ _ hkey
  | projection variance type =>
    refine quiet_bind (hπ.type (h variance type rfl) false s) fun w _ _ _ => ?_
    cases variance with
    | invariant => exact quiet_pure trivial
    | covariant => exact quiet_wildcard _ _ (a.not_kept (by decide) _)
    | contravariant => exact quiet_wildcard _ _ (a.not_kept (by decide) _)

/-! ## Classes -/

theorem quiet_instanceName (hπ : a.Keeps v π) (id : DeclId) {arguments : List TypeArgument}
    (h : ∀ variance type, .projection variance type ∈ arguments → v.Has type) :
    a.Quiet s (π.instanceName id arguments) Any := by
  refine walks_read (quiet_foldlM fun _ argument hargument t => ?_)
  refine quiet_bind (quiet_argument hπ fun variance type he => ?_) fun _ _ _ _ => quiet_pure trivial
  exact h variance type (he ▸ hargument)

theorem quiet_classSource (id : DeclId) : a.Quiet s (π.classSource id) a.Told :=
  walks_read (quiet_labelFor (a.kept_class id))

theorem quiet_writeClassOrInterface {kind : ClassKind} {id : Label} {name : String}
    {package source : Label} (h : a.Told id s) :
    a.Quiet s (Projection.writeClassOrInterface kind id name package source) Any := by
  have enum (t : Session) :
      a.Quiet t (if kind = .enumClass then write (.isEnumType id) else pure ()) Any :=
    quiet_when fun _ => quiet_write (by decide)
  exact walks_ite (fun _ => quiet_bind (quiet_tell (by decide) h) fun _ t _ _ => enum t)
    fun _ => quiet_bind (quiet_tell (by decide) h) fun _ t _ _ => enum t

theorem quiet_classModifiers (id : DeclId) (label : Label) :
    a.Quiet s (Projection.classModifiers id label) Any := by
  refine walks_read ?_
  split
  · exact quiet_when fun _ => quiet_addModifiers _ _
  · exact quiet_pure trivial

theorem quiet_supertype (hπ : a.Keeps v π) {c : ClassDecl} {label : Label} {type : IrType}
    (h : v.Has type) (hl : a.Told label s) : a.Quiet s (π.supertype c label type) Any := by
  unfold Projection.supertype
  split
  · next id u hid hu =>
    obtain ⟨rfl, hclassifier⟩ := IrType.eq_of_classId? hid hu
    have hhas : v.Has (.simple { classifier := .ofClass id, arguments := u.arguments }) :=
      v.like h hclassifier.symm rfl
    exact quiet_bind (hπ.classInstance hhas s) fun _ _ hst _ => quiet_tell (by decide) (hst.told hl)
  · exact walks_read (quiet_complain nofun)

theorem quiet_supertypes (hπ : a.Keeps v π) {id : DeclId} {label : Label}
    (h : ∀ c, p.class? id = some c → ∀ type ∈ c.superTypes, v.Has type) (hl : a.Told label s) :
    a.Quiet s (π.supertypes id label) Any := by
  refine walks_read ?_
  split
  · next c hc =>
    exact quiet_forM fun type htype t hst => quiet_supertype hπ (h c hc type htype) (hst.told hl)
  · exact quiet_pure trivial

theorem quiet_introducing (id : DeclId) : a.Quiet s (Scope.introducing p id) Any := by
  refine quiet_bind (quiet_scheduleIfExternal id) fun _ t _ _ => ?_
  split
  · exact quiet_scheduleIfExternal _
  · exact quiet_pure trivial

/-- A class whose key is not kept, and whose arguments are as calm as the rest. -/
theorem quiet_classInstanceStep (hπ : a.Keeps v π) {id : DeclId} {arguments : List TypeArgument}
    (hkey : ∀ text, ¬a.kept ("class;" ++ text))
    (hfact : ∀ {s f}, f.relation ∈ ["typeArgs", "isParameterized", "erasure"] →
      a.Holds s [.fact f] [])
    (h : v.Has (.simple { classifier := .ofClass id, arguments })) :
    a.Quiet s (π.classInstanceStep id arguments) Any := by
  have tell {r : String} {args : List Trap.Arg} (t : Session)
      (hr : r ∈ ["typeArgs", "isParameterized", "erasure"]) : a.Quiet t (write ⟨r, args⟩) Any :=
    quiet_fact (hfact hr)
  have hall : ∀ variance type, .projection variance type ∈ arguments → v.Has type :=
    fun variance type hargument => v.argument h hargument
  refine walks_read (quiet_bind (quiet_instanceName hπ _ hall) fun text _ _ _ => ?_)
  refine quiet_bind (quiet_labelWith (hkey text) fun l t hst hl => ?_) fun _ _ _ _ =>
    quiet_pure trivial
  refine quiet_when_bind (fun hempty => quiet_inFileOf fun u htu => ?_) fun u _ =>
    quiet_introducing id
  have hne : arguments ≠ [] := by
    rintro rfl
    exact absurd hempty (by decide)
  refine walks_read ?_
  split
  · refine quiet_bind (quiet_packageLabel _) fun _ _ h₁ _ => ?_
    refine quiet_bind (quiet_classSource _) fun _ _ h₂ _ => ?_
    have hl₂ := h₂.told (h₁.told (htu.told hl))
    refine quiet_bind (quiet_writeClassOrInterface hl₂) fun _ _ h₃ _ => ?_
    refine quiet_bind (quiet_forM (f := fun e : TypeArgument × Nat => do
        write (.typeArgs (← π.argument e.1) e.2 l)) fun e he _ _ => ?_) fun _ _ h₄ _ => ?_
    · refine quiet_bind (quiet_argument hπ fun variance type harg => ?_) fun _ w _ _ =>
        tell w (by decide)
      exact hall variance type (harg ▸ (List.mem_zipIdx' he).2 ▸ List.getElem_mem _)
    refine quiet_bind (tell _ (by decide)) fun _ _ h₅ _ => ?_
    refine quiet_bind (tell _ (by decide)) fun _ _ h₆ _ => ?_
    refine quiet_bind (quiet_classModifiers _ _) fun _ _ h₇ _ => ?_
    have hl₇ := h₇.told (h₆.told (h₅.told (h₄.told (h₃.told hl₂))))
    refine quiet_bind (quiet_supertypes hπ (fun c hc => v.ofInstance h rfl hne hc) hl₇)
      fun _ _ h₈ _ => ?_
    exact quiet_locate _ (h₈.told hl₇)
  · exact quiet_pure trivial

/-! ## Simple types -/

theorem quiet_richType (name : String) (classLabel : Label) (nullable : Bool) :
    a.Quiet s (Projection.richType name classLabel nullable) Any :=
  walks_ite
    (fun _ => quiet_bind (quiet_labelWith (a.not_kept (by decide) _)
      fun _ _ _ _ => quiet_write (by decide)) fun _ _ _ _ => quiet_pure trivial)
    fun _ => quiet_bind (quiet_labelWith (a.not_kept (by decide) _)
      fun _ _ _ _ => quiet_write (by decide)) fun _ _ _ _ => quiet_pure trivial

theorem quiet_classType (hπ : a.Keeps v π) {id : DeclId} {arguments : List TypeArgument}
    (nullable : Bool) (h : v.Has (.simple { classifier := .ofClass id, arguments })) :
    a.Quiet s (π.classType id arguments nullable) Any := by
  refine quiet_bind (hπ.classInstance h s) fun _ _ _ _ => walks_read ?_
  refine quiet_bind (quiet_instanceName hπ id fun variance type => v.argument h) fun _ _ _ _ => ?_
  exact quiet_bind (quiet_richType _ _ _) fun _ _ _ _ => quiet_pure trivial

theorem primitives_end : ∀ e ∈ Builtins.primitives,
    ("class;" ++ qualify e.2.hostPackage e.2.hostClass).toList.getLast? ≠ some '\x7d' := by
  decide

theorem quiet_primitiveHost {info : Builtins.PrimitiveInfo} {name : String}
    (h : Builtins.primitiveInfo? name = some info) (allowed : Bool) :
    a.Quiet s (Projection.primitiveHost info allowed) Any := by
  unfold Projection.primitiveHost
  split
  · exact quiet_bind (quiet_labelWith (a.not_kept (by decide) _)
      fun _ _ _ _ => quiet_write (by decide)) fun _ _ _ _ => quiet_pure trivial
  · refine quiet_bind (quiet_namedClass fun hkept => ?_) fun _ _ _ _ => quiet_pure trivial
    obtain ⟨before, after, htable, -⟩ := List.lookup_eq_some_iff.mp h
    exact primitives_end (name, info) (by simp [htable]) (a.kept_end _ hkept)

theorem quiet_primitiveType (hπ : a.Keeps v π) {info : Builtins.PrimitiveInfo} {name : String}
    (h : Builtins.primitiveInfo? name = some info) (id : DeclId) (nullable primitives : Bool) :
    a.Quiet s (π.primitiveType info id nullable primitives) Any := by
  refine quiet_bind (quiet_primitiveHost h _) fun _ _ _ _ => ?_
  refine quiet_bind (hπ.classInstance (v.bare id false) _) fun _ _ _ _ => ?_
  exact quiet_bind (quiet_richType _ _ _) fun _ _ _ _ => quiet_pure trivial

/-! ## Arrays -/

/-- The definition of an array behind its first fact, when the members are as calm as the
rest. -/
theorem passes_extractArray (hπ : a.Keeps v π) {array : SimpleType} {name : String}
    {levels : Nat} {element component label : Label} {r : Unit}
    (hfact : ∀ {s f}, f.relation ∈ ["methods", "fields"] → a.Holds s [.fact f] [])
    (h : v.Has (.simple array)) (harray : p.isArray array = true)
    (hs : ((Event.fact (.arrays label name element levels component)).step s).Tidy a.hidden)
    (hl : a.Told label ((Event.fact (.arrays label name element levels component)).step s))
    (he : Ends p s (π.extractArray array name levels element component label) r t) :
    a.Passes ((Event.fact (.arrays label name element levels component)).step s) [] t := by
  have tell {r : String} {args : List Trap.Arg} (t : Session)
      (hr : r ∈ ["methods", "fields"]) : a.Quiet t (write ⟨r, args⟩) Any := quiet_fact (hfact hr)
  have hrest (u : Session) : a.Quiet u (do
      let length ← labelFor ("field;" ++ label.braced ++ ";length")
      let int ← π.type true (p.builtinType "Int")
      write (.fields length "length" int.host.label int.rich.label label length)
      let result ← π.type true (IrType.simple (p.cloneType array)).makeNullable
      let clone ← labelFor ("callable;" ++ label.braced ++ ".clone()" ++ label.braced)
      write (.methods clone "clone" "clone()" label result.rich.label label clone)) Any := by
    simp only [String.append_assoc]
    refine quiet_bind (quiet_labelFor (a.not_kept (by decide) _)) fun _ _ _ _ => ?_
    refine quiet_bind (hπ.type (v.builtinType _) _ _) fun _ _ _ _ => ?_
    refine quiet_bind (tell _ (by decide)) fun _ _ _ _ => ?_
    refine quiet_bind (hπ.type (v.nullable (v.clone h harray)) _ _) fun _ _ _ _ => ?_
    refine quiet_bind (quiet_labelFor (a.not_kept (by decide) _)) fun _ _ _ _ => ?_
    exact tell _ (by decide)
  obtain ⟨_, u, hwrite, he⟩ := ends_bind.mp (ends_read_bind.mp he)
  obtain rfl := ends_write.mp hwrite
  dsimp only at he
  split at he
  · next id hid =>
    exact (quiet_bind (quiet_supertypes hπ (fun c hc => v.ofArray h hid harray hc) hl)
      (fun _ u _ _ => hrest u) hs r t he).1
  · exact (hrest _ hs r t he).1

/-- An array whose key is not kept, and whose members are as calm as the rest. -/
theorem quiet_arrayLabel (hπ : a.Keeps v π) {array : SimpleType} {name key : String}
    {levels : Nat} {element component : Label} (hkey : ¬a.kept key)
    (hfact : ∀ {s f}, f.relation ∈ ["methods", "fields"] → a.Holds s [.fact f] [])
    (h : v.Has (.simple array)) (harray : p.isArray array = true) :
    a.Quiet s (labelWith key (π.extractArray array name levels element component)) Any := by
  refine (quiet_labelWith hkey fun label t _ hl hs r u he => ⟨?_, trivial⟩).any
  have hfirst : a.Passes t [] ((Event.fact (.arrays label name element levels component)).step t) :=
    (quiet_write (by decide) hs () _ (ends_write.mpr rfl)).1
  exact hfirst.after (passes_extractArray hπ hfact h harray hfirst.tidy (hfirst.told hl) he)

theorem quiet_arrayType (hπ : a.Keeps v π) {array : SimpleType}
    (hlabel : ∀ name levels element component s,
      a.Quiet s (labelWith ("array;" ++ toString levels ++ ";" ++ element.braced)
        (π.extractArray array name levels element component)) Any)
    (h : v.Has (.simple array)) : a.Quiet s (π.arrayType array) Any := by
  refine walks_read (quiet_bind (quiet_hostLabel hπ (v.boxed (v.arrayElement h) _))
    fun component _ _ _ => ?_)
  refine quiet_bind (quiet_hostLabel hπ (v.boxed (v.arrayCore h) _)) fun element _ _ _ => ?_
  refine quiet_bind (hlabel _ _ _ _ _) fun label _ _ _ => ?_
  split
  · next id hid =>
    refine quiet_bind (quiet_classType hπ _ (v.like h ?_ rfl)) fun _ _ _ _ => quiet_pure trivial
    exact hid.symm
  · exact quiet_pure trivial

/-! ## Members -/

theorem quiet_scheduleOwner (steps : Nat) (id : DeclId) :
    a.Quiet s (Projection.scheduleOwner steps id) Any := by
  induction steps generalizing id with
  | zero => exact walks_throw
  | succ steps ih =>
    refine walks_read ?_
    split
    · exact walks_ite (fun _ => quiet_schedule _) fun _ =>
        walks_ite (fun _ => ih _) fun _ => quiet_complain nofun
    · exact quiet_pure trivial
    · exact quiet_complain nofun

theorem quiet_callableKey (hπ : a.Keeps v π) (parent : DeclParent) (name : String)
    (parameters : List IrType) (result : IrType) :
    a.Quiet s (π.callableKey parent name parameters result) fun key _ => ¬a.kept key := by
  refine (Walks.and (Q := Any) ?_ fun key t he => ?_).imp fun _ _ _ h => h.1
  · refine walks_read (quiet_bind (quiet_mapM fun type _ t => ?_) fun _ _ _ _ => ?_)
    · exact quiet_bind (quiet_hostLabel hπ (v.erase type)) fun _ _ _ _ => quiet_pure trivial
    refine quiet_bind (quiet_hostLabel hπ (v.erase result)) fun _ _ _ _ => ?_
    exact quiet_bind (hπ.parent parent _) fun _ _ _ _ => quiet_pure trivial
  · exact a.not_kept_of_start (by decide) (callableKey_start he)

theorem quiet_function (hπ : a.Keeps v π) (id : DeclId) : a.Quiet s (π.function id) a.Told := by
  refine walks_read ?_
  split
  · refine quiet_bind (quiet_callableKey hπ _ _ _ _) fun key _ _ hkey => ?_
    refine quiet_bind (quiet_labelFor hkey) fun label _ _ hl => ?_
    exact quiet_when_bind (fun _ => quiet_scheduleOwner _ _) fun _ ht => quiet_pure (ht.told hl)
  · exact quiet_complain_placeholder nofun

theorem quiet_parentStep (hπ : a.Keeps v π) (parent : DeclParent) :
    a.Quiet s (π.parentStep parent) Any := by
  cases parent with
  | file file => exact (quiet_fileClassLabel file).any
  | package name => exact quiet_packageLabel name
  | decl id =>
    refine walks_read ?_
    split
    · exact (quiet_classSource id).any
    · exact (quiet_function hπ id).any
    · exact (quiet_complain_placeholder (by simp)).any

/-! ## Type parameters -/

theorem quiet_typeParameterKey? (hπ : a.Keeps v π) (id : DeclId) :
    a.Quiet s (π.typeParameterKey? id) fun found _ => ∀ key ∈ found, ¬a.kept key := by
  refine (Walks.and (Q := Any) ?_ fun found t he => ?_).imp fun _ _ _ h => h.1
  · refine walks_read ?_
    split
    · exact quiet_bind (hπ.parent _ _) fun _ _ _ _ => quiet_pure trivial
    · exact quiet_pure trivial
  · exact fun key hkey => a.not_kept_of_start (by decide) (typeParameterKey?_start he key hkey)

theorem quiet_typeParameter (hπ : a.Keeps v π) (id : DeclId) :
    a.Quiet s (π.typeParameter id) a.Told := by
  refine quiet_bind (quiet_typeParameterKey? hπ id) fun found _ _ hfound => ?_
  cases found with
  | some key => exact quiet_labelFor (hfound key rfl)
  | none => exact quiet_placeholder

/-- A type parameter without a label is no grave problem. -/
theorem quiet_typeParameterUse (hπ : a.Keeps v π) (h : ∀ problem, ¬a.grave problem) (id : DeclId) :
    a.Quiet s (π.typeParameterUse id) Any := by
  refine quiet_bind (quiet_typeParameterKey? hπ id) fun found _ _ hfound => ?_
  cases found with
  | none => exact (quiet_complain_placeholder (by simp)).any
  | some key =>
    refine quiet_bind quiet_find? fun known _ _ _ => ?_
    cases known with
    | some label => exact quiet_pure trivial
    | none =>
      refine quiet_bind (quiet_bind quiet_unknownLocation fun _ _ _ _ =>
        quiet_reportAt (h _)) fun _ _ _ _ => ?_
      exact (quiet_labelFor (hfound key rfl)).any

/-! ## The knot -/

/-- What is not calm in projection is no step of the walk either. -/
structure Copes (a : Account p) (v : Vocabulary p) : Prop where
  classInstance : ∀ {fuel}, a.Keeps v (projection fuel) → ∀ {id arguments},
    v.Has (.simple { classifier := .ofClass id, arguments }) →
    ∀ s, a.Quiet s ((projection fuel).classInstanceStep id arguments) Any
  array : ∀ {fuel}, a.Keeps v (projection fuel) → ∀ {array}, v.Has (.simple array) →
    p.isArray array = true → ∀ s, a.Quiet s ((projection fuel).arrayType array) Any
  typeParameter : ∀ {fuel}, a.Keeps v (projection fuel) → ∀ {id}, v.Parameter id →
    ∀ s, a.Quiet s ((projection fuel).typeParameterUse id) Any

variable {fuel : Nat}

theorem quiet_typeParameterType (ha : a.Copes v) (hπ : a.Keeps v (projection fuel)) {id : DeclId}
    (h : v.Parameter id) (nullable : Bool) :
    a.Quiet s ((projection fuel).typeParameterType id nullable) Any := by
  refine walks_read (quiet_bind (ha.typeParameter hπ h s) fun _ _ _ _ => ?_)
  refine quiet_bind (quiet_namedClass fun hkept => ?_) fun _ _ _ _ =>
    quiet_bind (quiet_richType _ _ _) fun _ _ _ _ => quiet_pure trivial
  have hend : ("class;" ++ qualify "kotlin" "TypeParam").toList.getLast? ≠ some '\x7d' := by decide
  exact hend (a.kept_end _ hkept)

theorem quiet_simpleType (ha : a.Copes v) (hπ : a.Keeps v (projection fuel)) {type : SimpleType}
    (h : v.Has (.simple type)) (primitives : Bool) :
    a.Quiet s ((projection fuel).simpleType primitives type) Any := by
  refine walks_read (quiet_when_bind (fun _ => quiet_complain nofun) fun t _ => ?_)
  split
  · next id hid => exact quiet_typeParameterType ha hπ (v.ofTypeParameter h hid) _
  · next id hid =>
    split
    · exact quiet_bind (quiet_complain nofun) fun _ _ _ _ => quiet_pure trivial
    · split
      · next info hinfo => exact quiet_primitiveType hπ hinfo _ _ _
      · refine walks_ite (fun harray => ha.array hπ h harray _) fun _ => ?_
        exact quiet_classType hπ _ (v.like h hid.symm rfl)

theorem quiet_typeStep (ha : a.Copes v) (hπ : a.Keeps v (projection fuel)) {type : IrType}
    (h : v.Has type) (primitives : Bool) :
    a.Quiet s ((projection fuel).typeStep primitives type) Any := by
  cases type with
  | simple type => exact quiet_simpleType ha hπ h primitives
  | error description => exact quiet_bind (quiet_complain nofun) fun _ _ _ _ => quiet_pure trivial

theorem keeps_projection (ha : a.Copes v) (fuel : Nat) : a.Keeps v (projection fuel) := by
  induction fuel with
  | zero => exact ⟨fun _ _ _ => walks_throw, fun _ _ => walks_throw, fun _ _ => walks_throw⟩
  | succ fuel ih =>
    exact ⟨fun h primitives _ => quiet_typeStep ha ih h primitives,
      fun h s => ha.classInstance ih h s, fun parent _ => quiet_parentStep ih parent⟩

/-! ## Members and variables -/

theorem quiet_member (hπ : a.Keeps v π) {kind : String} (hkind : Outside (kind ++ ";"))
    (id : DeclId) : a.Quiet s (π.member kind id) a.Told := by
  refine walks_read ?_
  split
  · exact quiet_placeholder
  · refine quiet_bind (hπ.parent _ _) fun _ _ _ _ => ?_
    rw [String.append_assoc, String.append_assoc]
    exact quiet_labelFor (a.not_kept hkind _)

theorem quiet_valueParameter (hπ : a.Keeps v π) (id : DeclId) :
    a.Quiet s (π.valueParameter id) a.Told := by
  refine walks_read ?_
  split
  · refine quiet_when_bind (fun _ => quiet_complainAt (by simp) _) fun _ _ => ?_
    refine quiet_bind (hπ.parent _ _) fun _ _ _ _ => ?_
    simp only [String.append_assoc]
    exact quiet_labelFor (a.not_kept (by decide) _)
  · exact quiet_complain_placeholder nofun

theorem quiet_name (id : DeclId) {l : Label} (hl : a.Told l s) :
    a.Quiet s (modify fun t => { t with locals := (id, l) :: t.locals } : Extract PUnit) Any := by
  refine quiet_modify (e := .named id l) rfl (a.other nofun nofun nofun) nofun ?_ nofun
  intro id l he
  cases he
  exact hl

theorem quiet_localVariable (id : DeclId) : a.Quiet s (Projection.localVariable id) a.Told := by
  refine walks_get fun hs => ?_
  split
  · next l hl =>
    obtain ⟨l₁, l₂, hsplit, -⟩ := List.lookup_eq_some_iff.mp hl
    exact quiet_pure (hs.locals (id, l) (by simp [hsplit]))
  · refine quiet_bind quiet_fresh fun label t _ hl => ?_
    exact quiet_bind (quiet_name id hl) fun _ u htu _ => quiet_pure (htu.told hl)

theorem quiet_value (hπ : a.Keeps v π) (id : DeclId) : a.Quiet s (π.value id) a.Told := by
  refine walks_read ?_
  split
  · exact quiet_valueParameter hπ id
  · exact quiet_localVariable id
  · exact quiet_complain_placeholder nofun

theorem quiet_companionField? (hπ : a.Keeps v π) (id : DeclId) :
    a.Quiet s (π.companionField? id) fun found t => ∀ field ∈ found, a.Told field.1 t := by
  refine walks_read ?_
  split
  · exact quiet_pure nofun
  · split
    · refine quiet_bind (hπ.classInstance (v.bare _ false) _) fun _ _ _ _ => ?_
      simp only [String.append_assoc]
      refine quiet_bind (quiet_labelFor (a.not_kept (by decide) _)) fun l _ _ hl => quiet_pure ?_
      rintro field hfield
      cases hfield
      exact hl
    · exact quiet_bind (quiet_complain nofun) fun _ _ _ _ => quiet_pure nofun

theorem quiet_objectField (hπ : a.Keeps v π) (id : DeclId) :
    a.Quiet s (π.objectField id) fun field t => a.Told field.1 t := by
  refine walks_read ?_
  dsimp only
  refine quiet_when_bind (fun _ => quiet_complain nofun) fun _ _ => ?_
  refine quiet_bind (hπ.classInstance (v.bare _ false) _) fun _ _ _ _ => ?_
  simp only [String.append_assoc]
  exact quiet_bind (quiet_labelFor (a.not_kept (by decide) _)) fun l _ _ hl => quiet_pure hl

end Account

end IrFacts
