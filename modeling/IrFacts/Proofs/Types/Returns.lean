import IrFacts.Proofs.Run.SettledParents

/-!
# Projection returns

However classes, bounds, supertypes and arrays refer to each other, the
projection of a type comes to an end. All types that it comes to are in one
finite family. The label of a class with arguments or of an array is defined
once, so wherever a definition starts, fewer such labels of the family are
missing than before. With as many missing, types lead to their parts only, and
type parameters to the erased types of functions, which have none.
-/

set_option autoImplicit false

namespace IrFacts

namespace Extract

variable {p : Program} {types : List SimpleType} {s t : Session}

/-! ## Types without labels of their own -/

theorem typeAnswers_error (description : String) : TypeAnswers p s (.error description) := by
  intro primitives
  refine answersOn_succ (m := fun π => π.typeStep primitives (.error description)) (fun _ => rfl) ?_
  exact fun _ _ => answers_bind (answers_complain _) fun _ _ _ => answers_pure _

theorem answersOn_bareInstance (hp : HasLines p) (id : DeclId) :
    AnswersOn p s fun π => π.classInstance id [] := by
  refine answersOn_succ (m := fun π => π.classInstanceStep id []) (fun _ => rfl) ?_
  exact fun _ _ => answers_classInstanceStep hp id nofun fun hne => absurd rfl hne

theorem typeAnswers_simple {u : SimpleType} (hp : HasLines p)
    (hparameter : ∀ id, u.classifier = .ofTypeParameter id →
      AnswersOn p s fun π => π.typeParameterType id u.nullable)
    (harray : p.isArray u = true → AnswersOn p s fun π => π.arrayType u)
    (hclass : ∀ id, u.classifier = .ofClass id →
      AnswersOn p s fun π => π.classType id u.arguments u.nullable) :
    TypeAnswers p s (.simple u) := by
  intro primitives
  refine answersOn_succ (m := fun π => π.simpleType primitives u) (fun _ => rfl) fun t ht => ?_
  refine answers_read (answers_when_bind (fun _ => answers_complain _) fun t' ht' => ?_)
  have ht' := ht.trans ht'
  dsimp only
  cases hclassifier : u.classifier with
  | ofTypeParameter id => exact hparameter id hclassifier t' ht'
  | ofClass id =>
    dsimp only
    cases p.fqName? id with
    | none => exact answers_bind (answers_complain _) fun _ _ _ => answers_pure _
    | some name =>
      dsimp only
      cases Builtins.primitiveInfo? name with
      | some info =>
        exact answers_primitiveType info u.nullable primitives (answersOn_bareInstance hp id)
      | none => exact answers_ite (fun h => harray h t' ht') fun _ => hclass id hclassifier t' ht'

/-- The type is projected, and so is its class with its arguments. -/
structure SimpleAnswers (p : Program) (s : Session) (u : SimpleType) : Prop where
  type : TypeAnswers p s (.simple u)
  «instance» : ∀ id, u.classifier = .ofClass id →
    AnswersOn p s fun π => π.classInstance id u.arguments

theorem SimpleAnswers.onward {u : SimpleType} (h : SimpleAnswers p s u) (ho : s.Onward t) :
    SimpleAnswers p t u := ⟨h.type.onward ho, fun id hid => (h.instance id hid).onward ho⟩

theorem simpleAnswers_bare (hp : HasLines p) {id : DeclId} (nullable : Bool)
    (hshape : p.shapeOfClass? id = none) :
    SimpleAnswers p s { classifier := .ofClass id, nullable } := by
  refine ⟨typeAnswers_simple hp (fun _ h => ?_) (fun h => ?_) fun id' hid => ?_, fun id' _ => ?_⟩
  · cases h
  · simp [Program.isArray, Program.arrayShape?, hshape] at h
  · exact fun t _ => answers_classType nullable (answersOn_bareInstance hp id').here fun _ ha =>
      absurd ha List.not_mem_nil
  · exact answersOn_bareInstance hp id'

/-- All parts of the type are projected, whether or not they may be null. -/
def PartsAnswer (p : Program) (s : Session) (type : IrType) : Prop :=
  ∀ w ∈ type.parts, SimpleAnswers p s w ∧ SimpleAnswers p s w.orNull

theorem PartsAnswer.onward {type : IrType} (h : PartsAnswer p s type) (ho : s.Onward t) :
    PartsAnswer p t type := fun w hw => ⟨(h w hw).1.onward ho, (h w hw).2.onward ho⟩

theorem PartsAnswer.type {type : IrType} (h : PartsAnswer p s type) : TypeAnswers p s type := by
  cases type with
  | simple w => exact (h w w.self_mem_parts).1.type
  | error description => exact typeAnswers_error description

theorem PartsAnswer.boxed {type : IrType} (h : PartsAnswer p s type) (isPrimitive : Bool) :
    TypeAnswers p s (Projection.boxed p isPrimitive type) := by
  unfold Projection.boxed
  split
  · cases type with
    | simple w => exact (h w w.self_mem_parts).2.type
    | error description => exact typeAnswers_error description
  · exact h.type

theorem PartsAnswer.argument {u : SimpleType} {variance : Variance} {type : IrType}
    (h : PartsAnswer p s (.simple u)) (hmem : .projection variance type ∈ u.arguments) :
    PartsAnswer p s type :=
  fun w hw => h w (SimpleType.mem_parts.mpr (.inr ⟨_, hmem, hw⟩))

/-! ## Builtin types -/

/-- What projection relies on in a program and in a family of types. -/
structure Setting (p : Program) (types : List SimpleType) : Prop where
  lines : HasLines p
  nest : p.FunctionsNest
  plain : p.BuiltinsPlain
  family : p.Family types

theorem partsAnswer_builtin (hs : Setting p types) {name : String}
    (hname : name ∈ Program.plainBuiltins) : PartsAnswer p s (p.builtinType name) := by
  intro w hw
  obtain ⟨id, hid, rfl⟩ := Program.parts_builtinType hw
  have hshape := hs.plain name hname id hid
  exact ⟨simpleAnswers_bare hs.lines false hshape, simpleAnswers_bare hs.lines true hshape⟩

theorem partsAnswer_top (hs : Setting p types) : PartsAnswer p s p.topType := by
  intro w hw
  obtain ⟨id, hid, rfl⟩ := Program.parts_topType hw
  have hshape := hs.plain "Any" (List.mem_cons_self ..) id hid
  exact ⟨simpleAnswers_bare hs.lines true hshape, simpleAnswers_bare hs.lines true hshape⟩

/-! ## Labels that are missing -/

section HowMany

variable {P Q : SimpleType → Prop} {u : SimpleType}

open Classical in
noncomputable def howMany (types : List SimpleType) (P : SimpleType → Prop) : Nat :=
  types.countP (P ·)

open Classical in
theorem howMany_le (h : ∀ u, Q u → P u) : howMany types Q ≤ howMany types P :=
  List.countP_mono_left fun u _ hu => decide_eq_true (h u (of_decide_eq_true hu))

open Classical in
theorem howMany_lt (hu : u ∈ types) (h : ∀ u, Q u → P u) (hP : P u) (hQ : ¬Q u) :
    howMany types Q < howMany types P := by
  induction types with
  | nil => cases hu
  | cons v rest ih =>
    have hrest : rest.countP (Q ·) ≤ rest.countP (P ·) := howMany_le h
    simp only [howMany, List.countP_cons, decide_eq_true_eq] at ih ⊢
    rcases List.mem_cons.mp hu with rfl | hu
    · rw [if_pos hP, if_neg hQ]
      omega
    · refine Nat.add_lt_add_of_lt_of_le (ih hu) ?_
      split
      · next hv => exact Nat.le_of_eq (if_pos (h v hv)).symm
      · exact Nat.zero_le _

end HowMany

def InstanceMissing (p : Program) (table : LabelTable) (u : SimpleType) : Prop :=
  ∃ id, u.classifier = .ofClass id ∧ ¬InstanceBound p table (p.onHost id) u.arguments

/-- How many classes with arguments and arrays of the family have no label. -/
noncomputable def missing (p : Program) (types : List SimpleType) (table : LabelTable) : Nat :=
  howMany types (InstanceMissing p table) + howMany types fun u => ¬ArrayBound p table u

variable {table more : LabelTable} {u : SimpleType}

theorem InstanceMissing.of_le (hle : table.Le more) (u : SimpleType)
    (h : InstanceMissing p more u) : InstanceMissing p table u :=
  h.imp fun _ hid => ⟨hid.1, fun hbound => hid.2 (hbound.mono hle)⟩

theorem not_arrayBound_of_le (hle : table.Le more) (u : SimpleType) (h : ¬ArrayBound p more u) :
    ¬ArrayBound p table u := fun hbound => h (hbound.mono hle)

theorem missing_le (p : Program) (types : List SimpleType) (hle : table.Le more) :
    missing p types more ≤ missing p types table :=
  Nat.add_le_add (howMany_le (InstanceMissing.of_le hle)) (howMany_le (not_arrayBound_of_le hle))

theorem missing_lt_of_instance {id : DeclId} (hle : table.Le more) (hu : u ∈ types)
    (hid : u.classifier = .ofClass id)
    (hnot : ¬InstanceBound p table (p.onHost id) u.arguments)
    (hbound : InstanceBound p more (p.onHost id) u.arguments) :
    missing p types more < missing p types table := by
  refine Nat.add_lt_add_of_lt_of_le (howMany_lt hu (InstanceMissing.of_le hle) ⟨id, hid, hnot⟩ ?_)
    (howMany_le (not_arrayBound_of_le hle))
  rintro ⟨id', hid', hnot'⟩
  cases hid.symm.trans hid'
  exact hnot' hbound

theorem missing_lt_of_array (hle : table.Le more) (hu : u ∈ types) (hnot : ¬ArrayBound p table u)
    (hbound : ArrayBound p more u) : missing p types more < missing p types table :=
  Nat.add_lt_add_of_le_of_lt (howMany_le (InstanceMissing.of_le hle))
    (howMany_lt hu (not_arrayBound_of_le hle) hnot fun h => h hbound)

/-! ## Families -/

def FamilyAnswers (p : Program) (types : List SimpleType) (s : Session) : Prop :=
  ∀ u ∈ types, SimpleAnswers p s u

def Deeper (p : Program) (types : List SimpleType) (s : Session) : Prop :=
  ∀ t : Session, s.table.Le t.table → missing p types t.table < missing p types s.table →
    FamilyAnswers p types t

theorem Deeper.onward (h : Deeper p types s) (ho : s.Onward t) : Deeper p types t :=
  fun u hu hlt => h u (ho.table.trans hu) (Nat.lt_of_lt_of_le hlt (missing_le p types ho.table))

theorem argumentAnswers_of_parts (hs : Setting p types) {a : TypeArgument}
    (h : ∀ w ∈ a.parts, TypeAnswers p s (.simple w)) : ArgumentAnswers p s a := by
  cases a with
  | star => exact (partsAnswer_builtin hs (List.mem_cons_self ..)).type
  | projection variance type =>
    cases type with
    | simple w => exact h w w.self_mem_parts
    | error description => exact typeAnswers_error description

theorem supertypeAnswers_of_family (hs : Setting p types) (h : FamilyAnswers p types s)
    {id : DeclId} {c : ClassDecl} (hc : p.class? id = some c) {type : IrType}
    (htype : type ∈ c.superTypes) : SupertypeAnswers p s type := by
  intro superId u hid hu
  cases type with
  | error description => cases hu
  | simple w =>
    cases hu
    have hmem := hs.family.superType hc _ htype u u.self_mem_parts
    refine (h u hmem).instance superId ?_
    unfold IrType.classId? at hid
    dsimp only at hid
    split at hid
    · next hclassifier =>
      cases hid
      exact hclassifier
    · cases hid

/-! ## Definitions of labels -/

theorem settles_extractInstance_of_deeper (hs : Setting p types) (hd : Deeper p types s)
    {u : SimpleType} (hu : u ∈ types) {id : DeclId} (hid : u.classifier = .ofClass id)
    (hnot : ¬InstanceBound p s.table (p.onHost id) u.arguments)
    (hbound : InstanceBound p t.table (p.onHost id) u.arguments) (hle : s.table.Le t.table)
    (hplace : Placeable t.file.target) (l : Label) :
    Settles p t fun π => π.extractInstance (p.onHost id) u.arguments l := by
  have hall := hd t hle (missing_lt_of_instance hle hu hid hnot hbound)
  refine settles_extractInstance l hplace (fun a ha => argumentAnswers_of_parts hs fun w hw => ?_)
    fun c hc type htype => supertypeAnswers_of_family hs hall hc htype
  exact (hall w (hs.family.part u hu w (SimpleType.mem_parts.mpr (.inr ⟨a, ha, hw⟩)))).type

theorem settles_extractArray_of_deeper (hs : Setting p types) (hd : Deeper p types s)
    {u : SimpleType} (hu : u ∈ types) (hnot : ¬ArrayBound p s.table u)
    (hbound : ArrayBound p t.table u) (hle : s.table.Le t.table) (name : String) (levels : Nat)
    (element component l : Label) :
    Settles p t fun π => π.extractArray u name levels element component l := by
  have hall := hd t hle (missing_lt_of_array hle hu hnot hbound)
  refine settles_extractArray name levels element component l
    (fun id _ c hc type htype => supertypeAnswers_of_family hs hall hc htype) ?_ ?_
  · exact (partsAnswer_builtin hs (List.mem_cons_of_mem _ (List.mem_cons_self ..))).type
  · exact (hall _ (hs.family.orNull _ (hs.family.clone u hu))).type

/-! ## One type -/

/-- What is left of a type without its array levels is projected with its parts. -/
theorem partsAnswer_arrayCore (hs : Setting p types) {type : IrType} (h : PartsAnswer p s type) :
    PartsAnswer p s (p.arrayCore type).element :=
  Program.arrayCore_of h (fun _ _ _ hu hmem => hu.argument hmem)
    (fun _ _ hshape => partsAnswer_builtin hs (Program.mem_plainBuiltins_of_shape hshape))
    (partsAnswer_top hs)

/-- The arguments of the type have only parts that are projected. -/
def ArgumentsAnswer (p : Program) (s : Session) (u : SimpleType) : Prop :=
  ∀ variance type, .projection variance type ∈ u.arguments → PartsAnswer p s type

theorem answersOn_arrayType (hs : Setting p types) (hd : Deeper p types s) {u : SimpleType}
    (hu : u ∈ types) (harray : p.isArray u = true) (hargs : ArgumentsAnswer p s u)
    (hclass : ∀ id, u.classifier = .ofClass id →
      AnswersOn p s fun π => π.classType id u.arguments u.nullable) :
    AnswersOn p s fun π => π.arrayType u := by
  have hbuiltin : ∀ element, p.arrayShape? u = some (.primitive element) →
      PartsAnswer p s (p.builtinType element) := fun element hshape =>
    partsAnswer_builtin hs (Program.mem_plainBuiltins_of_shape hshape)
  have hcomponent : PartsAnswer p s (p.arrayElement u) :=
    Program.arrayElement_of hargs hbuiltin (partsAnswer_top hs)
  have helement : PartsAnswer p s (p.arrayCore (.simple u)).element :=
    Program.arrayCore_of_isArray harray
      (fun variance type hmem => partsAnswer_arrayCore hs (hargs variance type hmem)) hbuiltin
      (partsAnswer_top hs)
  intro t ht
  refine answers_arrayType ((hcomponent.onward ht).boxed _) ((helement.onward ht).boxed _) ?_
    fun id hid => (hclass id hid).onward ht
  exact fun v hnot hbound hle element component l =>
    settles_extractArray_of_deeper hs (hd.onward ht) hu hnot hbound hle _ _ element component l

theorem simpleAnswers_of_deeper (hs : Setting p types) (hd : Deeper p types s) {u : SimpleType}
    (hu : u ∈ types) (hargs : ArgumentsAnswer p s u)
    (hparameter : ∀ id, u.classifier = .ofTypeParameter id →
      AnswersOn p s fun π => π.typeParameterType id u.nullable) : SimpleAnswers p s u := by
  have harguments (t : Session) (ht : s.Onward t) : ∀ a ∈ u.arguments, ArgumentAnswers p t a := by
    intro a ha
    cases a with
    | star => exact (partsAnswer_builtin hs (List.mem_cons_self ..)).type
    | projection variance type => exact (hargs variance type ha).type.onward ht
  have hinstance : ∀ id, u.classifier = .ofClass id →
      AnswersOn p s fun π => π.classInstance id u.arguments := by
    intro id hid
    refine answersOn_succ (m := fun π => π.classInstanceStep id u.arguments) (fun _ => rfl) ?_
    intro t ht
    refine answers_classInstanceStep hs.lines id (harguments t ht)
      fun _ v hnot hbound hle hplace l => ?_
    exact settles_extractInstance_of_deeper hs (hd.onward ht) hu hid hnot hbound hle hplace l
  have hclass : ∀ id, u.classifier = .ofClass id →
      AnswersOn p s fun π => π.classType id u.arguments u.nullable := fun id hid t ht =>
    answers_classType u.nullable (hinstance id hid t ht) (harguments t ht)
  exact ⟨typeAnswers_simple hs.lines hparameter
    (fun harray => answersOn_arrayType hs hd hu harray hargs hclass) hclass, hinstance⟩

/-! ## All types -/

def ParametersAnswer (p : Program) (s : Session) (u : SimpleType) : Prop :=
  ∀ id nullable, u.classifier = .ofTypeParameter id →
    AnswersOn p s fun π => π.typeParameterType id nullable

theorem partsAnswer_of_deeper (hs : Setting p types) (hd : Deeper p types s) {type : IrType}
    (h : ∀ w ∈ type.parts, w ∈ types ∧ ParametersAnswer p s w) : PartsAnswer p s type := by
  suffices hall : ∀ u : SimpleType, (∀ w ∈ u.parts, w ∈ types ∧ ParametersAnswer p s w) →
      SimpleAnswers p s u ∧ SimpleAnswers p s u.orNull from
    fun w hw => hall w fun v hv => h v (IrType.parts_trans type hw hv)
  refine SimpleType.Inherits.holds fun u ih hparts => ?_
  obtain ⟨hu, hparameter⟩ := hparts u u.self_mem_parts
  have hargs : ArgumentsAnswer p s u := by
    intro variance type hmem w hw
    have hsub : ∀ v ∈ w.parts, v ∈ u.parts := fun v hv =>
      SimpleType.mem_parts.mpr (.inr ⟨_, hmem, IrType.parts_trans type hw hv⟩)
    exact ih _ hmem w hw fun v hv => hparts v (hsub v hv)
  exact ⟨simpleAnswers_of_deeper hs hd hu hargs fun id => hparameter id u.nullable,
    simpleAnswers_of_deeper hs hd (hs.family.orNull u hu) hargs fun id => hparameter id true⟩

theorem signaturesAnswer_of_deeper (hs : Setting p types) (hd : Deeper p types s) :
    SignaturesAnswer p s := by
  intro id f hf type htype
  refine (partsAnswer_of_deeper hs hd fun w hw => ⟨hs.family.signature hf type htype w hw, ?_⟩).type
  intro parameter nullable hparameter
  obtain ⟨other, hother⟩ := Program.ground_erase type w hw
  cases hparameter.symm.trans hother

theorem familyAnswers_of_deeper (hs : Setting p types) (hd : Deeper p types s) :
    FamilyAnswers p types s := by
  have hparent := answersOn_parent hs.nest (signaturesAnswer_of_deeper hs hd)
  have hparameters (w : SimpleType) : ParametersAnswer p s w := fun id nullable _ t ht =>
    answers_typeParameterType id nullable fun parent => (hparent parent).onward ht
  intro u hu
  have hparts : PartsAnswer p s (.simple u) :=
    partsAnswer_of_deeper hs hd fun w hw => ⟨hs.family.part u hu w hw, hparameters w⟩
  exact (hparts u u.self_mem_parts).1

theorem familyAnswers (hs : Setting p types) (s : Session) : FamilyAnswers p types s := by
  suffices h : ∀ n, ∀ s : Session, missing p types s.table < n → FamilyAnswers p types s from
    h _ s (Nat.lt_succ_self _)
  intro n
  induction n with
  | zero => exact fun s hs => absurd hs (Nat.not_lt_zero _)
  | succ n ih =>
    intro s hn
    exact familyAnswers_of_deeper hs fun t _ ht =>
      ih t (Nat.lt_of_lt_of_le ht (Nat.le_of_lt_succ hn))

/-- The projection of a type returns, as a primitive and as a reference. -/
theorem type_returns {d : Document} (hd : Program.ofDocument d = .ok p) (hn : p.Numbered)
    (hnest : p.FunctionsNest) (hlines : HasLines p) (s : Session) (primitives : Bool)
    (type : IrType) : ∃ views s' least, ∀ fuel ≥ least,
      Ends p s ((projection fuel).type primitives type) views s' := by
  have hplain := Program.builtinsPlain_of_index (Program.indexNames_ofDocument hd hn)
  have hfamily := familyAnswers ⟨hlines, hnest, hplain, Program.family_family hplain type⟩ s
  have hanswers : TypeAnswers p s type := by
    cases type with
    | simple u => exact (hfamily u (Program.parts_mem_family u.self_mem_parts)).type
    | error description => exact typeAnswers_error description
  obtain ⟨views, s', hends, -⟩ := (hanswers primitives).here
  exact ⟨views, s', hends⟩

/-- `class Box<T> : Box<Box<T>>` and `fun <U : Box<U>> f(): Array<Box<U>>`. -/
def expanding : Document :=
  let box (type : IrType) : IrType := .ofClass ⟨0⟩ [.projection .invariant type]
  { files := [{ path := "Box.kt", declarations := [⟨0⟩, ⟨2⟩] }]
    declarations :=
      [{ parent := .file ⟨0⟩
         kind := .class { name := "Box", typeParameters := [⟨1⟩]
                          superTypes := [box (box (.ofTypeParameter ⟨1⟩))] } },
        { parent := .decl ⟨0⟩, kind := .typeParameter { name := "T", index := 0 } },
        { parent := .file ⟨0⟩
          kind := .function { name := "f", typeParameters := [⟨3⟩]
                              returnType := .ofClass ⟨4⟩ [.projection .invariant
                                (box (.ofTypeParameter ⟨3⟩))] } },
        { parent := .decl ⟨2⟩
          kind := .typeParameter { name := "U", index := 0
                                   superTypes := [box (.ofTypeParameter ⟨3⟩)] } },
        { parent := .package "kotlin", origin := .externalStub
          kind := .class { name := "Array" } }] }

/-- The array that `f` returns is projected. -/
theorem type_returns_expanding : ∃ p f, Program.ofDocument expanding = .ok p ∧ p.Numbered ∧
    p.FunctionsNest ∧ HasLines p ∧ p.function? ⟨2⟩ = some f ∧ ∀ s primitives,
      ∃ views s' least, ∀ fuel ≥ least,
        Ends p s ((projection fuel).type primitives f.returnType) views s' := by
  have hall : (Program.ofDocument expanding).toOption.any (fun p =>
      decide (p.declarations.size ≤ UInt32.size) && p.parentsFirst && p.isFunction ⟨2⟩ &&
        p.files.toList.all fun entry => entry.lines.starts ≠ #[]) = true := by
    decide +kernel
  cases hd : Program.ofDocument expanding with
  | error e =>
    rw [hd] at hall
    cases hall
  | ok p =>
    rw [hd] at hall
    simp only [Except.toOption, Option.any_some, Bool.and_eq_true, decide_eq_true_eq] at hall
    obtain ⟨⟨⟨hn, hfirst⟩, hfunction⟩, hfiles⟩ := hall
    have hnest := Program.functionsNest_of_parentsFirst hfirst
    have hlines : HasLines p := fun entry hentry => by
      simpa using List.all_eq_true.mp hfiles entry (Array.mem_toList_iff.mpr hentry)
    obtain ⟨f, hf⟩ := Option.isSome_iff_exists.mp hfunction
    exact ⟨p, f, rfl, hn, hnest, hlines, hf, fun s primitives =>
      type_returns hd hn hnest hlines s primitives f.returnType⟩

end Extract

end IrFacts
