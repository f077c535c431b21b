import IrFacts.Proofs.Program.SymbolTable
import IrFacts.Proofs.Types.ArrayFacts

/-!
# Elements of boxed arrays

Two tables tell of primitives: one which classes are host primitives where no null can
stand, the other which of them are boxed as elements of `kotlin.Array`. The second one
leaves some out, and the arrays of these are taken for arrays of primitives. The elements
of all others are references, and no array of primitives has the label of such an array.
-/

set_option autoImplicit false

namespace IrFacts

/-- Classes that are host primitives, but are not boxed as elements of arrays. -/
def Builtins.unboxedClasses : List String :=
  ["kotlin.UByte", "kotlin.UShort", "kotlin.UInt", "kotlin.ULong", "kotlin.Unit"]

namespace Builtins

theorem boxed_or_unboxed : ∀ e ∈ primitives, e.2.primitive.isSome = true →
    isPrimitiveClass e.1 = true ∨ e.1 ∈ unboxedClasses := by
  decide

theorem unboxedClasses_primitive : ∀ name ∈ unboxedClasses, isPrimitiveClass name = false ∧
    ((primitiveInfo? name).bind (·.primitive)).isSome = true := by
  decide

theorem arrayElements_primitive : ∀ e ∈ primitiveArrays, e.2 ∈ Program.builtinClasses ∧
    ((primitiveInfo? (qualify "kotlin" e.2)).bind (·.primitive)).isSome = true := by
  decide

end Builtins

namespace Program

variable {p : Program} {type : IrType} {s : SimpleType}

/-- A type that is a host primitive even as an element of `kotlin.Array`. -/
def IsUnboxed (p : Program) (type : IrType) : Prop :=
  ∃ s id name, type = .simple s ∧ s.classifier = .ofClass id ∧ s.nullable = false ∧
    p.fqName? id = some name ∧ name ∈ Builtins.unboxedClasses

theorem shape_eq_primitive_iff {primitives : Bool} {id : DeclId} {name primitive : String}
    {info : Builtins.PrimitiveInfo} (hid : s.classifier = .ofClass id)
    (hname : p.fqName? id = some name) (hinfo : Builtins.primitiveInfo? name = some info) :
    p.shape primitives (.simple s) = .primitive primitive ↔
      info.primitive = some primitive ∧ primitives = true ∧ s.nullable = false := by
  simp only [shape, hid, hname, hinfo, primitiveShape]
  cases info.primitive <;> cases primitives <;> cases s.nullable <;> simp

theorem info_of_shape {primitives : Bool} {primitive : String}
    (h : p.shape primitives (.simple s) = .primitive primitive) : ∃ id name info,
      s.classifier = .ofClass id ∧ p.fqName? id = some name ∧
        Builtins.primitiveInfo? name = some info := by
  unfold shape at h
  dsimp only at h
  split at h
  · unfold typeParameterShape at h
    split at h <;> cases h
  · next id hid =>
    split at h
    · cases h
    · next name hname =>
      split at h
      · next info hinfo => exact ⟨id, name, info, hid, hname, hinfo⟩
      · split at h <;> cases h

theorem isPrimitiveType_simple {id : DeclId} {name : String} (hid : s.classifier = .ofClass id)
    (hname : p.fqName? id = some name) :
    p.isPrimitiveType (.simple s) = (!s.nullable && Builtins.isPrimitiveClass name) := by
  simp only [isPrimitiveType, hid, hname]

/-- What is boxed is in the table of the eight; what is a primitive and not in it stays one. -/
theorem shape_boxed_iff :
    (∃ name, p.shape true (Projection.boxed p false type) = .primitive name) ↔
      p.IsUnboxed type := by
  cases type with
  | error description =>
    refine iff_of_false (fun ⟨_, h⟩ => nomatch h) ?_
    rintro ⟨s, _, _, hs, -⟩
    cases hs
  | simple s =>
    cases hprimitive : p.isPrimitiveType (.simple s) with
    | true =>
      have hboxed : Projection.boxed p false (.simple s) = .simple { s with nullable := true } := by
        rw [Projection.boxed, hprimitive]
        rfl
      rw [hboxed]
      refine iff_of_false ?_ ?_
      · rintro ⟨primitive, h⟩
        obtain ⟨id, name, info, hid, hname, hinfo⟩ := info_of_shape h
        cases ((shape_eq_primitive_iff hid hname hinfo).mp h).2.2
      · rintro ⟨_, id, name, ⟨⟩, hid, -, hname, hmem⟩
        rw [isPrimitiveType_simple hid hname, (Builtins.unboxedClasses_primitive name hmem).1,
          Bool.and_false] at hprimitive
        cases hprimitive
    | false =>
      have hboxed : Projection.boxed p false (.simple s) = .simple s := by
        rw [Projection.boxed, hprimitive]
        rfl
      rw [hboxed]
      constructor
      · rintro ⟨primitive, h⟩
        obtain ⟨id, name, info, hid, hname, hinfo⟩ := info_of_shape h
        obtain ⟨hsome, -, hnull⟩ := (shape_eq_primitive_iff hid hname hinfo).mp h
        obtain ⟨front, rest, hentries, -⟩ := List.lookup_eq_some_iff.mp hinfo
        rw [isPrimitiveType_simple hid hname, hnull] at hprimitive
        have hentry : (name, info) ∈ Builtins.primitives := by simp [hentries]
        refine ⟨s, id, name, rfl, hid, hnull, hname, ?_⟩
        refine (Builtins.boxed_or_unboxed _ hentry (by simp [hsome])).resolve_left fun hboxed => ?_
        simp [hboxed] at hprimitive
      · rintro ⟨_, id, name, ⟨⟩, hid, hnull, hname, hmem⟩
        obtain ⟨primitive, h⟩ :=
          Option.isSome_iff_exists.mp (Builtins.unboxedClasses_primitive name hmem).2
        obtain ⟨info, hinfo, hsome⟩ := Option.bind_eq_some_iff.mp h
        exact ⟨primitive, (shape_eq_primitive_iff hid hname hinfo).mpr ⟨hsome, rfl, hnull⟩⟩

theorem mem_of_arrayShape? {element : String} (h : p.arrayShape? s = some (.primitive element)) :
    ∃ name, (name, element) ∈ Builtins.primitiveArrays := by
  unfold arrayShape? at h
  split at h
  · obtain ⟨name, -, hshape⟩ := Option.bind_eq_some_iff.mp h
    split at hshape
    · cases hshape
    · obtain ⟨_, helement, he⟩ := Option.map_eq_some_iff.mp hshape
      cases he
      obtain ⟨front, rest, hentries, -⟩ := List.lookup_eq_some_iff.mp helement
      exact ⟨name, by simp [hentries]⟩
  · cases h

theorem arrayCore_isPrimitive (h : (p.arrayCore type).isPrimitive = true) :
    ∃ e ∈ Builtins.primitiveArrays, (p.arrayCore type).element = p.builtinType e.2 := by
  fun_induction p.arrayCore type with
  | case1 description => cases h
  | case2 classifier nullable arguments abbreviation s hshape => cases h
  | case3 classifier nullable arguments abbreviation s element hshape =>
    obtain ⟨name, hmem⟩ := mem_of_arrayShape? hshape
    exact ⟨(name, element), hmem, rfl⟩
  | case4 classifier nullable abbreviation variance type rest _ s hshape ih => exact ih h
  | case5 classifier nullable arguments abbreviation s hshape hnone => cases h

theorem shape_coreElement {d : Document} (hd : ofDocument d = .ok p) (hn : p.Numbered)
    (h : (p.arrayCore (.simple s)).isPrimitive = true) :
    ∃ name, p.shape true (Extract.coreElement p s) = .primitive name := by
  obtain ⟨e, he, helement⟩ := arrayCore_isPrimitive h
  obtain ⟨hbuiltin, hinfo⟩ := Builtins.arrayElements_primitive e he
  obtain ⟨hleads, heq⟩ := leads_of_ofDocument hd
  have hp : d.Established p := heq ▸ established_ofDocument hleads
  obtain ⟨id, hid⟩ := Option.isSome_iff_exists.mp (hp.builtins e.2 hbuiltin)
  obtain ⟨-, hname, -⟩ := (hp.index hn _ _).mp hid
  obtain ⟨primitive, hprimitive⟩ := Option.isSome_iff_exists.mp hinfo
  obtain ⟨info, hinfo, hprimitive⟩ := Option.bind_eq_some_iff.mp hprimitive
  have hcore : Extract.coreElement p s = .ofClass id [] := by
    rw [Extract.coreElement, h, helement, builtinType, hid, Projection.boxed]
    simp
  exact ⟨primitive, hcore ▸ (shape_eq_primitive_iff rfl hname hinfo).mpr ⟨hprimitive, rfl, rfl⟩⟩

end Program

def LabelTable.Reference (t : LabelTable) (l : Label) : Prop :=
  l = .placeholder ∨ ∃ key, t.find? key = some l ∧ ¬"type;".toList <+: key.toList

namespace Extract

variable {p : Program} {t u : LabelTable} {s s' : Session} {fuel : Nat} {type : IrType} {l : Label}

theorem reference_of_start (start : String) {key : String}
    (hapart : ¬"type;".toList <+: start.toList ∧ ¬start.toList <+: "type;".toList)
    (hstart : start.toList <+: key.toList) (hkey : t.find? key = some l) : t.Reference l := by
  refine .inr ⟨key, hkey, fun h => ?_⟩
  rcases List.prefix_or_prefix_of_prefix h hstart with hp | hp
  · exact hapart.1 hp
  · exact hapart.2 hp

theorem reference_of_class {text : String} (hkey : t.find? ("class;" ++ text) = some l) :
    t.Reference l := by
  refine reference_of_start "class;" (by decide) ?_ hkey
  rw [String.toList_append]
  exact List.prefix_append _ _

theorem reference_mono (h : t.Reference l) (hle : t.Le u) : u.Reference l :=
  h.imp_right fun ⟨key, hkey, hstart⟩ => ⟨key, hle _ _ hkey, hstart⟩

theorem reference_typeParameterUse {π : Projection} {id : DeclId}
    (h : Ends p s (π.typeParameterUse id) l s') : s'.table.Reference l := by
  obtain ⟨found, t, hfound, h⟩ := ends_bind.mp h
  cases found with
  | none =>
    obtain ⟨_, u, -, h⟩ := ends_bind.mp h
    exact .inl (ends_pure.mp h).1
  | some key =>
    exact reference_of_start "typevar;" (by decide)
      (typeParameterKey?_start hfound key rfl) (bound_of_findOrComplain h).2

theorem reference_typeParameterType {π : Projection} {id : DeclId} {nullable : Bool}
    {v : TypeViews} (h : Ends p s (π.typeParameterType id nullable) v s') :
    s'.table.Reference v.host.label := by
  obtain ⟨host, t, hhost, h⟩ := ends_bind.mp (ends_read_bind.mp h)
  obtain ⟨c, u, hc, h⟩ := ends_bind.mp h
  obtain ⟨rich, w, hrich, h⟩ := ends_bind.mp h
  obtain ⟨rfl, rfl⟩ := ends_pure.mp h
  have hgrows := ((asks_namedClass "kotlin" "TypeParam").grows _ _ _ hc).trans
    ((asks_richType _ c nullable).grows _ _ _ hrich)
  exact reference_mono (reference_typeParameterUse hhost) hgrows.table

theorem reference_classType {π : Projection} (hπ : Remembers p π) {id : DeclId}
    {arguments : List TypeArgument} {nullable : Bool} {v : TypeViews}
    (h : Ends p s (π.classType id arguments nullable) v s') :
    s'.table.Reference v.host.label := by
  obtain ⟨c, t, hc, h⟩ := ends_bind.mp h
  obtain ⟨name, u, hname, h⟩ := ends_bind.mp (ends_read_bind.mp h)
  obtain ⟨rich, w, hrich, h⟩ := ends_bind.mp h
  obtain ⟨rfl, rfl⟩ := ends_pure.mp h
  obtain ⟨labels, -, hkey⟩ := hπ.bindsInstance hc
  have hgrows := ((asks_instanceName hπ.toStable id arguments).grows _ _ _ hname).trans
    ((asks_richType name c.label nullable).grows _ _ _ hrich)
  exact reference_of_class (hgrows.table _ _ hkey)

theorem primitiveHost_cases {info : Builtins.PrimitiveInfo} {allowed : Bool} {v : TypeView}
    (h : Ends p s (Projection.primitiveHost info allowed) v s') :
    (∃ name, info.primitive = some name ∧ allowed = true ∧
      s'.table.find? ("type;" ++ name) = some v.label) ∨
    (¬(info.primitive.isSome = true ∧ allowed = true) ∧ s'.table.Reference v.label) := by
  unfold Projection.primitiveHost at h
  split at h
  · next name hname =>
    obtain ⟨label, _, hlabel, h⟩ := ends_bind.mp h
    obtain ⟨rfl, rfl⟩ := ends_pure.mp h
    exact .inl ⟨name, hname, rfl, (bound_of_labelWith (fun _ => grows_write _) hlabel).2⟩
  · next hother =>
    obtain ⟨label, _, hlabel, h⟩ := ends_bind.mp h
    obtain ⟨rfl, rfl⟩ := ends_pure.mp h
    refine .inr ⟨?_, reference_of_class (Projection.bound_of_namedClass hlabel)⟩
    rintro ⟨hsome, rfl⟩
    obtain ⟨name, hname⟩ := Option.isSome_iff_exists.mp hsome
    exact hother name hname rfl

theorem primitiveType_cases {π : Projection} (hπ : Remembers p π) {info : Builtins.PrimitiveInfo}
    {id : DeclId} {nullable primitives : Bool} {v : TypeViews}
    (h : Ends p s (π.primitiveType info id nullable primitives) v s') :
    (∃ name, info.primitive = some name ∧ (primitives && !nullable) = true ∧
      s'.table.find? ("type;" ++ name) = some v.host.label) ∨
    (¬(info.primitive.isSome = true ∧ (primitives && !nullable) = true) ∧
      s'.table.Reference v.host.label) := by
  obtain ⟨host, t, hhost, h⟩ := ends_bind.mp h
  obtain ⟨c, u, hc, h⟩ := ends_bind.mp h
  obtain ⟨rich, w, hrich, h⟩ := ends_bind.mp h
  obtain ⟨rfl, rfl⟩ := ends_pure.mp h
  have hgrows := ((hπ.asksInstance id []).grows _ _ _ hc).trans
    ((asks_richType _ c.label nullable).grows _ _ _ hrich)
  rcases primitiveHost_cases hhost with ⟨name, hname, hallowed, hkey⟩ | ⟨hnone, hreference⟩
  · exact .inl ⟨name, hname, hallowed, hgrows.table _ _ hkey⟩
  · exact .inr ⟨hnone, reference_mono hreference hgrows.table⟩

theorem reference_of_type {simple : SimpleType} {primitives : Bool} {v : TypeViews}
    (hother : ¬∃ id name info, simple.classifier = .ofClass id ∧ p.fqName? id = some name ∧
      Builtins.primitiveInfo? name = some info)
    (h : Ends p s ((projection (fuel + 1)).type primitives (.simple simple)) v s') :
    s'.table.Reference v.host.label := by
  obtain ⟨t, hends⟩ := Projection.ends_classified h
  split at hends
  · exact reference_typeParameterType hends
  · next id hid =>
    split at hends
    · obtain ⟨_, _, -, hends⟩ := ends_bind.mp hends
      exact .inl (congrArg (·.host.label) (ends_pure.mp hends).1)
    · next name hname =>
      split at hends
      · next info hinfo => exact absurd ⟨id, name, info, hid, hname, hinfo⟩ hother
      · by_cases harray : p.isArray simple = true
        · obtain ⟨element, -, hkey⟩ := bound_of_array harray h
          exact reference_of_start "array;" (by decide) (arrayKey_start _ _) hkey
        · rw [if_neg harray] at hends
          exact reference_classType (remembers_projection p fuel) hends

theorem primitive_or_reference {v : TypeViews}
    (h : Ends p s ((projection fuel).type true type) v s') :
    (∃ name, p.shape true type = .primitive name ∧
      s'.table.find? ("type;" ++ name) = some v.host.label) ∨
    ((∀ name, p.shape true type ≠ .primitive name) ∧ s'.table.Reference v.host.label) := by
  cases fuel with
  | zero => exact absurd h ends_throw
  | succ fuel =>
    cases type with
    | error description =>
      obtain ⟨_, _, -, h⟩ := ends_bind.mp h
      obtain ⟨rfl, rfl⟩ := ends_pure.mp h
      exact .inr ⟨nofun, .inl rfl⟩
    | simple s =>
      by_cases hinfo : ∃ id name info, s.classifier = .ofClass id ∧ p.fqName? id = some name ∧
          Builtins.primitiveInfo? name = some info
      · obtain ⟨id, name, info, hid, hname, hinfo⟩ := hinfo
        obtain ⟨t, hends⟩ := Projection.ends_classified h
        simp only [hid, hname, hinfo] at hends
        rcases primitiveType_cases (remembers_projection p fuel) hends with
          ⟨primitive, hsome, hallowed, hkey⟩ | ⟨hnone, hreference⟩
        · refine .inl ⟨primitive, (Program.shape_eq_primitive_iff hid hname hinfo).mpr ?_, hkey⟩
          exact ⟨hsome, rfl, by simpa using hallowed⟩
        · refine .inr ⟨fun primitive hshape => hnone ?_, hreference⟩
          obtain ⟨hsome, -, hnull⟩ := (Program.shape_eq_primitive_iff hid hname hinfo).mp hshape
          exact ⟨Option.isSome_of_eq_some hsome, by rw [hnull]; rfl⟩
      · exact .inr ⟨fun primitive hshape => hinfo (Program.info_of_shape hshape),
          reference_of_type hinfo h⟩

theorem primitive_iff (ht : t.Faithful) (h : HostLabelled p t type l) :
    (∃ name, t.find? ("type;" ++ name) = some l) ↔
      ∃ name, p.shape true type = .primitive name := by
  obtain ⟨fuel, s, v, s', hv, rfl, hle⟩ := h.ends_type
  rcases primitive_or_reference hv with ⟨name, hshape, hkey⟩ | ⟨hshape, hreference⟩
  · exact iff_of_true ⟨name, hle _ _ hkey⟩ ⟨name, hshape⟩
  · refine iff_of_false ?_ fun ⟨name, hname⟩ => hshape name hname
    rintro ⟨name, hname⟩
    rcases hreference with hplaceholder | ⟨key, hkey, hstart⟩
    · exact ht.ne_placeholder hname hplaceholder
    · refine hstart ?_
      rw [ht.distinct _ _ _ (hle _ _ hkey) hname, String.toList_append]
      exact List.prefix_append _ _

end Extract

namespace Request

open Extract

variable {p : Program} {s s' : Session} {path : String} {lines : Option LineTable}
  {sink : Trap.Sink} {typeFuel walkFuel fuel : Nat} {before after : List Request}
  {primitives : Bool} {array : SimpleType} {v : TypeViews}

/-- Where all levels are boxed, the element of an array is a reference unless it is of one of the
classes that are left out, and no array with a level of primitives has its label. -/
theorem arrayTold_of_boxed (hsink : sink.NeverRefuses) (hnew : sink.taken = [])
    (hs : s.file = .ofPath (.ofSink sink) path lines) (hlocals : s.locals = [])
    (harray : p.isArray array = true)
    (hboxed : (p.arrayCore (.simple array)).isPrimitive = false)
    (h : Ends p s (amid (walk (projection typeFuel) walkFuel) before
      ((projection fuel).type primitives (.simple array)) after) v s') :
    ∃ element, p.ArrayTold s'.table s'.file.writer.sink.lines (p.arrayCore (.simple array)).levels
        element v.host.label ∧
      ((∃ name, s'.table.find? ("type;" ++ name) = some element) ↔
        p.IsUnboxed (p.arrayCore (.simple array)).element) ∧
      (¬p.IsUnboxed (p.arrayCore (.simple array)).element →
        ∀ d, Program.ofDocument d = .ok p → p.Numbered → ∀ other label, p.isArray other = true →
          (p.arrayCore (.simple other)).isPrimitive = true →
          HostLabelled p s'.table (.simple other) label → label ≠ v.host.label) := by
  obtain ⟨hfaithful, element, helement, htold⟩ :=
    arrayTold_of_amid hsink hnew hs hlocals harray h
  have hprimitive : (∃ name, s'.table.find? ("type;" ++ name) = some element) ↔
      p.IsUnboxed (p.arrayCore (.simple array)).element := by
    rw [primitive_iff hfaithful helement, coreElement, hboxed, Program.shape_boxed_iff]
  refine ⟨element, htold, hprimitive, fun hunboxed d hd hn other label hother hlevel hl hsame => ?_⟩
  obtain ⟨_, _, w, _, hw, rfl, hle⟩ := hl.ends_type
  obtain ⟨core, hcore, hkey⟩ := bound_of_array hother hw
  have hcore := hcore.mono hle
  have hkeys := hfaithful.distinct _ _ _ (hle _ _ hkey) (hsame ▸ htold.key)
  obtain ⟨-, rfl⟩ :=
    arrayKey_inj (hcore.number hfaithful) (helement.number hfaithful) hkeys
  refine hunboxed (hprimitive.mp ((primitive_iff hfaithful hcore).mpr ?_))
  exact Program.shape_coreElement hd hn hlevel

/-- The program that is read from a document without declarations. -/
def builtinsOnly : Program := (Program.ofDocument {}).toOption.getD default

theorem ofDocument_builtinsOnly : Program.ofDocument {} = .ok builtinsOnly := by
  have hok : (Program.ofDocument {}).isOk = true := by decide +kernel
  unfold builtinsOnly
  cases hd : Program.ofDocument {} with
  | error e =>
    rw [hd] at hok
    cases hok
  | ok p => rfl

def shelfOf (element : IrType) : SimpleType :=
  { classifier := .ofClass ⟨16⟩, nullable := false, arguments := [.projection .invariant element]
    abbreviation := none }

theorem levels_shelfOf : ∀ id ∈ ([⟨5⟩, ⟨9⟩] : List DeclId),
    builtinsOnly.Levels (.simple (shelfOf (.ofClass id []))) 1 false (.ofClass id []) := by
  have hshapes : ∀ id ∈ ([⟨5⟩, ⟨9⟩] : List DeclId),
      builtinsOnly.arrayShape? (shelfOf (.ofClass id [])) = some .boxed ∧
        builtinsOnly.arrayShape? ⟨.ofClass id, false, [], none⟩ = none := by decide +kernel
  intro id hid
  obtain ⟨hboxed, hnone⟩ := hshapes id hid
  exact .projection hboxed rfl (.none fun _ h => IrType.simple.inj h ▸ hnone)

theorem ends_amid_type {other : SimpleType} {t : Session} {u : TypeViews}
    (hv : Ends p s ((projection fuel).type false (.simple array)) v t)
    (hu : Ends p t ((walk (projection typeFuel) walkFuel).type true (.simple other)) u s') :
    Ends p s (amid (walk (projection typeFuel) walkFuel) []
      ((projection fuel).type false (.simple array))
      [.operation (.refer (.type (.simple other)))]) v s' := by
  have hrefer : Ends p t (run (walk (projection typeFuel) walkFuel)
      [.operation (.refer (.type (.simple other)))]) () s' :=
    ends_bind.mpr ⟨(), s', ends_bind.mpr ⟨_, s', ends_bind.mpr ⟨u, s', hu,
      ends_pure.mpr ⟨rfl, rfl⟩⟩, ends_pure.mpr ⟨rfl, rfl⟩⟩, ends_pure.mpr ⟨rfl, rfl⟩⟩
  exact ends_bind.mpr ⟨(), s, ends_pure.mpr ⟨rfl, rfl⟩, ends_bind.mpr ⟨v, t, hv,
    ends_bind.mpr ⟨(), s', hrefer, ends_pure.mpr ⟨rfl, rfl⟩⟩⟩⟩

theorem shelfOf_unboxed :
    ¬builtinsOnly.IsUnboxed (.ofClass ⟨5⟩ []) ∧ builtinsOnly.IsUnboxed (.ofClass ⟨9⟩ []) := by
  have hnames : builtinsOnly.fqName? ⟨5⟩ = some "kotlin.Int" ∧
      builtinsOnly.fqName? ⟨9⟩ = some "kotlin.UInt" := by decide +kernel
  refine ⟨?_, _, _, _, rfl, rfl, rfl, hnames.2, by decide⟩
  rintro ⟨s, id, name, htype, hid, -, hname, hmem⟩
  cases htype
  cases hid
  cases hnames.1.symm.trans hname
  exact absurd hmem (by decide)

/-- Beside `IntArray` there are an array of `Int` and one of `UInt`. The element of the former is a
reference and its label another one than that of `IntArray`, but the latter has a host primitive
for its element and the label of `IntArray`. -/
theorem arrayTold_of_boxed_shelf :
    let s : Session :=
      { file := .source (.ofSink .unbounded) "a.kt" .single, counter := {}, queue := {} }
    let ints : SimpleType := ⟨.ofClass ⟨19⟩, false, [], none⟩
    let asked (id : DeclId) := amid (walk (projection 9) 9) []
      ((projection 9).type false (.simple (shelfOf (.ofClass id []))))
      [.operation (.refer (.type (.simple ints)))]
    Program.ofDocument {} = .ok builtinsOnly ∧ builtinsOnly.Numbered ∧
    builtinsOnly.isArray ints = true ∧
    (builtinsOnly.arrayCore (.simple ints)).isPrimitive = true ∧
    (∃ v s' element label, Ends builtinsOnly s (asked ⟨5⟩) v s' ∧
      builtinsOnly.ArrayTold s'.table s'.file.writer.sink.lines 1 element v.host.label ∧
      (∀ name, s'.table.find? ("type;" ++ name) ≠ some element) ∧
      HostLabelled builtinsOnly s'.table (.simple ints) label ∧ label ≠ v.host.label) ∧
    ∃ v s' element, Ends builtinsOnly s (asked ⟨9⟩) v s' ∧
      builtinsOnly.ArrayTold s'.table s'.file.writer.sink.lines 1 element v.host.label ∧
      (∃ name, s'.table.find? ("type;" ++ name) = some element) ∧
      HostLabelled builtinsOnly s'.table (.simple ints) v.host.label := by
  intro s ints asked
  have hnumbered : builtinsOnly.Numbered := by
    unfold Program.Numbered
    decide +kernel
  have hints : builtinsOnly.isArray ints = true ∧
      (builtinsOnly.arrayCore (.simple ints)).isPrimitive = true := by decide +kernel
  -- Each of the two is projected, and `IntArray` behind it.
  have hask (id : DeclId) (same : Bool) (h : (((do
      let v ← (projection 9).type false (.simple (shelfOf (.ofClass id [])))
      let u ← (walk (projection 9) 9).type true (.simple ints)
      return (v, u) : Extract (TypeViews × TypeViews)) builtinsOnly s).toOption.map fun r =>
        decide (r.1.2.host.label = r.1.1.host.label)) = some same) :
      ∃ v s' label, Ends builtinsOnly s (asked id) v s' ∧
        HostLabelled builtinsOnly s'.table (.simple ints) label ∧
        decide (label = v.host.label) = same := by
    obtain ⟨⟨v, u⟩, s', hends, hsame⟩ := ends_of_map h
    obtain ⟨v, t, hv, hends⟩ := ends_bind.mp hends
    obtain ⟨u, t', hu, hends⟩ := ends_bind.mp hends
    obtain ⟨hpair, rfl⟩ := ends_pure.mp hends
    cases hpair
    exact ⟨v, s', u.host.label, ends_amid_type hv hu,
      .of_hostLabel (ends_bind.mpr ⟨u, s', hu, ends_pure.mpr ⟨rfl, rfl⟩⟩), hsame⟩
  have htold (id : DeclId) (hid : id ∈ ([⟨5⟩, ⟨9⟩] : List DeclId)) {v : TypeViews} {s' : Session}
      (h : Ends builtinsOnly s (asked id) v s') := by
    have hlevels := levels_shelfOf id hid
    have hall := arrayTold_of_boxed (fun _ _ => rfl) rfl rfl rfl (hlevels.isArray Nat.one_pos)
      (congrArg Program.ArrayCore.isPrimitive hlevels.arrayCore_eq) h
    rw [hlevels.arrayCore_eq] at hall
    exact hall
  refine ⟨ofDocument_builtinsOnly, hnumbered, hints.1, hints.2, ?_, ?_⟩
  · obtain ⟨v, s', label, h, hlabel, -⟩ := hask ⟨5⟩ false (by decide +kernel)
    obtain ⟨element, htold, hiff, hapart⟩ := htold ⟨5⟩ (by decide) h
    exact ⟨v, s', element, label, h, htold,
      fun name hname => shelfOf_unboxed.1 (hiff.mp ⟨name, hname⟩), hlabel,
      hapart shelfOf_unboxed.1 {} ofDocument_builtinsOnly hnumbered ints label hints.1 hints.2
        hlabel⟩
  · obtain ⟨v, s', label, h, hlabel, hsame⟩ := hask ⟨9⟩ true (by decide +kernel)
    obtain ⟨element, htold, hiff, -⟩ := htold ⟨9⟩ (by decide) h
    exact ⟨v, s', element, h, htold, hiff.mpr shelfOf_unboxed.2,
      of_decide_eq_true hsame ▸ hlabel⟩

end Request

end IrFacts
