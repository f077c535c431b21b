import IrFacts.Proofs.Labels.Recall
import IrFacts.Proofs.Run.SettledProjection
import IrFacts.Proofs.Types.HashConsing
import IrFacts.Proofs.Types.Parts

/-!
# Labels of arrays

An array is labelled after the number of its levels and the label of what is left
without them. What its first level holds is one level less of the same, or the element
itself. The type `kotlin.Array` without an argument is in two minds: asked for on its
own it is a class, and inside an array it is one more level.
-/

set_option autoImplicit false

namespace IrFacts

/-- The key of an array of so many levels over the label of an element. -/
def arrayKey (levels : Nat) (element : Label) : String :=
  "array;" ++ toString levels ++ ";" ++ element.braced

theorem arrayKey_start (levels : Nat) (element : Label) :
    "array;".toList <+: (arrayKey levels element).toList := by
  rw [arrayKey, String.append_assoc, String.append_assoc, String.toList_append]
  exact List.prefix_append _ _

theorem arrayKey_inj {m n : Nat} {l l' : Label} (hl : ∃ n, l = .number n)
    (hl' : ∃ n, l' = .number n) (h : arrayKey m l = arrayKey n l') : m = n ∧ l = l' := by
  simp only [arrayKey, String.append_assoc] at h
  refine digits_inj hl hl' ?_
  simpa only [String.append_assoc] using (start_inj (by decide) (by decide) h).2

namespace Program

variable {p : Program} {s : SimpleType} {type element : IrType} {levels : Nat} {isPrimitive : Bool}

/-! ## Levels -/

/-- A type is taken apart into array levels, where each `kotlin.Array` has an argument,
and an element that is no array. The innermost level may be an array of primitives. -/
inductive Levels (p : Program) : IrType → Nat → Bool → IrType → Prop
  | none {type : IrType} (h : ∀ s, type = .simple s → p.arrayShape? s = none) :
    p.Levels type 0 false type
  | primitive {s : SimpleType} {name : String} (hshape : p.arrayShape? s = some (.primitive name)) :
    p.Levels (.simple s) 1 true (p.builtinType name)
  | star {s : SimpleType} {rest : List TypeArgument} (hshape : p.arrayShape? s = some .boxed)
    (hargs : s.arguments = .star :: rest) : p.Levels (.simple s) 1 false p.topType
  | projection {s : SimpleType} {variance : Variance} {type element : IrType}
    {rest : List TypeArgument} {levels : Nat} {isPrimitive : Bool}
    (hshape : p.arrayShape? s = some .boxed)
    (hargs : s.arguments = .projection variance type :: rest)
    (h : p.Levels type levels isPrimitive element) :
    p.Levels (.simple s) (levels + 1) isPrimitive element

theorem arrayCore_none (hshape : p.arrayShape? s = none) :
    p.arrayCore (.simple s) = ⟨0, false, .simple s⟩ := by
  obtain ⟨classifier, nullable, arguments, abbreviation⟩ := s
  unfold arrayCore
  simp only [hshape]

theorem arrayCore_primitive {name : String} (hshape : p.arrayShape? s = some (.primitive name)) :
    p.arrayCore (.simple s) = ⟨1, true, p.builtinType name⟩ := by
  obtain ⟨classifier, nullable, arguments, abbreviation⟩ := s
  unfold arrayCore
  simp only [hshape]

theorem arrayCore_projection {variance : Variance} {rest : List TypeArgument}
    (hshape : p.arrayShape? s = some .boxed)
    (hargs : s.arguments = .projection variance type :: rest) :
    p.arrayCore (.simple s) =
      { p.arrayCore type with levels := (p.arrayCore type).levels + 1 } := by
  obtain ⟨classifier, nullable, arguments, abbreviation⟩ := s
  obtain rfl := hargs
  simp only [arrayCore, hshape]

/-- An array without a type to hold is one of anything, also if it has no argument at all. -/
theorem arrayCore_top (hshape : p.arrayShape? s = some .boxed)
    (hargs : ∀ variance type rest, s.arguments ≠ .projection variance type :: rest) :
    p.arrayCore (.simple s) = ⟨1, false, p.topType⟩ := by
  obtain ⟨classifier, nullable, arguments, abbreviation⟩ := s
  rcases arguments with _ | ⟨_ | ⟨variance, type⟩, rest⟩
  · simp only [arrayCore, hshape]
  · simp only [arrayCore, hshape]
  · exact absurd rfl (hargs variance type rest)

theorem Levels.arrayCore_eq (h : p.Levels type levels isPrimitive element) :
    p.arrayCore type = ⟨levels, isPrimitive, element⟩ := by
  induction h with
  | @none type hnone =>
    cases type with
    | error description => rfl
    | simple s => exact arrayCore_none (hnone s rfl)
  | primitive hshape => exact arrayCore_primitive hshape
  | star hshape hargs => exact arrayCore_top hshape (by simp [hargs])
  | projection hshape hargs _ ih => rw [arrayCore_projection hshape hargs, ih]

theorem Levels.isArray (h : p.Levels (.simple s) levels isPrimitive element) (hpos : 0 < levels) :
    p.isArray s = true := by
  unfold Program.isArray
  cases h with
  | none => exact absurd hpos (Nat.lt_irrefl 0)
  | primitive hshape => rw [hshape]
  | star hshape hargs => simp [hshape, hargs]
  | projection hshape hargs => simp [hshape, hargs]

theorem named_of_arrayShape? (h : (p.arrayShape? s).isSome = true) :
    ∃ id name, s.classifier = .ofClass id ∧ p.fqName? id = some name ∧
      Builtins.primitiveInfo? name = none ∧ Builtins.isPrimitiveClass name = false := by
  have hnames : ∀ name ∈ Builtins.boxedArray :: Builtins.primitiveArrays.map (·.1),
      Builtins.primitiveInfo? name = none ∧ Builtins.isPrimitiveClass name = false := by decide
  obtain ⟨shape, hshape⟩ := Option.isSome_iff_exists.mp h
  unfold arrayShape? at hshape
  split at hshape
  · next id hid =>
    obtain ⟨name, hname, hshape⟩ := Option.bind_eq_some_iff.mp hshape
    refine ⟨id, name, hid, hname, hnames name ?_⟩
    split at hshape
    · next hboxed => exact hboxed ▸ List.mem_cons_self ..
    · obtain ⟨element, helement, -⟩ := Option.map_eq_some_iff.mp hshape
      obtain ⟨front, rest, hentries, -⟩ := List.lookup_eq_some_iff.mp helement
      refine List.mem_cons_of_mem _ (List.mem_map.mpr ⟨(name, element), ?_, rfl⟩)
      simp [hentries]
  · cases hshape

theorem boxed_array (h : (p.arrayShape? s).isSome = true) (isPrimitive : Bool) :
    Projection.boxed p isPrimitive (.simple s) = .simple s := by
  obtain ⟨id, name, hid, hname, -, hprimitive⟩ := named_of_arrayShape? h
  simp [Projection.boxed, isPrimitiveType, hid, hname, hprimitive]

/-- Under its first level an array is its element, or has one level less. -/
theorem arrayElement_cases (h : p.isArray s = true) :
    ((p.arrayCore (.simple s)).levels = 1 ∧ (p.arrayCore (.simple s)).element = p.arrayElement s) ∨
      ∃ inner, p.arrayElement s = .simple inner ∧ (p.arrayShape? inner).isSome = true ∧
        p.arrayCore (.simple s) =
          { p.arrayCore (.simple inner) with
            levels := (p.arrayCore (.simple inner)).levels + 1 } := by
  unfold isArray at h
  cases hshape : p.arrayShape? s with
  | none => simp [hshape] at h
  | some shape =>
    cases shape with
    | primitive name =>
      refine .inl ?_
      rw [arrayCore_primitive hshape]
      exact ⟨rfl, by simp only [arrayElement, hshape]⟩
    | boxed =>
      have helement : p.arrayElement s = p.elementOf s.arguments := by
        simp only [arrayElement, hshape]
      cases hargs : s.arguments with
      | nil => simp [hshape, hargs] at h
      | cons a rest =>
        cases a with
        | star =>
          refine .inl ?_
          rw [arrayCore_top hshape (by simp [hargs]), helement, hargs]
          exact ⟨rfl, rfl⟩
        | projection variance type =>
          rw [arrayCore_projection hshape hargs, helement, hargs, elementOf]
          cases type with
          | error description => exact .inl ⟨rfl, rfl⟩
          | simple inner =>
            cases hinner : p.arrayShape? inner with
            | none =>
              rw [arrayCore_none hinner]
              exact .inl ⟨rfl, rfl⟩
            | some shape => exact .inr ⟨inner, rfl, by rw [hinner, Option.isSome_some], rfl⟩

theorem levels_pos (h : p.isArray s = true) : 0 < (p.arrayCore (.simple s)).levels := by
  rcases arrayElement_cases h with ⟨hone, -⟩ | ⟨inner, -, -, hcore⟩
  · exact hone ▸ Nat.one_pos
  · rw [hcore]
    exact Nat.succ_pos _

/-- Without an argument `kotlin.Array` is no array, but still a level. -/
theorem arrayCore_bare (hshape : (p.arrayShape? s).isSome = true) (h : p.isArray s = false) :
    p.arrayShape? s = some .boxed ∧ s.arguments = [] ∧
      p.arrayCore (.simple s) = ⟨1, false, p.topType⟩ := by
  obtain ⟨shape, hshape⟩ := Option.isSome_iff_exists.mp hshape
  cases shape with
  | primitive name => simp [isArray, hshape] at h
  | boxed =>
    have hargs : s.arguments = [] := by simpa [isArray, hshape] using h
    exact ⟨hshape, hargs, arrayCore_top hshape (by simp [hargs])⟩

theorem boxed_topType (isPrimitive : Bool) :
    Projection.boxed p isPrimitive p.topType = p.topType := by
  have hnone : p.isPrimitiveType p.topType = false := by
    unfold topType
    obtain ⟨id, -, htype⟩ | ⟨description, htype⟩ := p.builtinType_cases "Any" <;> rw [htype] <;> rfl
  rw [Projection.boxed, hnone]
  rfl

end Program

namespace Extract

/-- By the time of the table the type has been projected, with this label on the host. -/
def HostLabelled (p : Program) (t : LabelTable) (type : IrType) (l : Label) : Prop :=
  ∃ (fuel : Nat) (s s' : Session), Ends p s ((projection fuel).hostLabel type) l s' ∧
    s'.table.Le t

namespace HostLabelled

variable {p : Program} {t u : LabelTable} {type : IrType} {l m : Label} {s s' : Session}

theorem of_hostLabel {fuel : Nat} (h : Ends p s ((projection fuel).hostLabel type) l s') :
    HostLabelled p s'.table type l := ⟨fuel, s, s', h, .refl _⟩

theorem mono (h : HostLabelled p t type l) (hle : t.Le u) : HostLabelled p u type l := by
  obtain ⟨fuel, s, s', h, hs⟩ := h
  exact ⟨fuel, s, s', h, hs.trans hle⟩

theorem again (h : HostLabelled p t type l) (hle : t.Le s.table) {fuel : Nat}
    (hm : Ends p s ((projection fuel).hostLabel type) m s') : m = l := by
  obtain ⟨first, u, u', h, hu⟩ := h
  have more (n : Nat) (hn : n ≤ max first fuel) := (refines_projection p hn).hostLabel type
  exact (asks_hostLabel (stable_projection p (max first fuel)) type).recalls
    (more first (Nat.le_max_left ..) _ _ _ h) (hu.trans hle)
    (more fuel (Nat.le_max_right ..) _ _ _ hm)

theorem ends_type (h : HostLabelled p t type l) : ∃ fuel s v s',
    Ends p s ((projection fuel).type true type) v s' ∧ v.host.label = l ∧ s'.table.Le t := by
  obtain ⟨fuel, s, s', h, hle⟩ := h
  obtain ⟨v, _, hv, h⟩ := ends_bind.mp h
  obtain ⟨rfl, rfl⟩ := ends_pure.mp h
  exact ⟨fuel, s, v, _, hv, rfl, hle⟩

theorem number (h : HostLabelled p t type l) (ht : t.Faithful) : ∃ n, l = .number n := by
  obtain ⟨fuel, s, v, s', hv, rfl, hle⟩ := h.ends_type
  exact (((remembers_projection p fuel).givesType hv).mono hle).number ht

end HostLabelled

variable {p : Program} {s s₁ s₂ s' : Session} {fuel : Nat} {array : SimpleType}
  {t u : LabelTable} {levels : Nat} {element component : Label}

/-! ## The label of an array -/

theorem ends_arrayType {primitives : Bool} {v : TypeViews} (harray : p.isArray array = true)
    (h : Ends p s ((projection (fuel + 1)).type primitives (.simple array)) v s') :
    ∃ t, Ends p t ((projection fuel).arrayType array) v s' := by
  obtain ⟨id, name, hid, hname, hinfo, -⟩ :=
    Program.named_of_arrayShape? (Program.isSome_arrayShape? harray)
  obtain ⟨t, h⟩ := Projection.ends_classified h
  simp only [hid, hname, hinfo, harray, if_true] at h
  exact ⟨t, h⟩

theorem bound_of_array {primitives : Bool} {v : TypeViews} (harray : p.isArray array = true)
    (h : Ends p s ((projection fuel).type primitives (.simple array)) v s') :
    ∃ element, HostLabelled p s'.table (coreElement p array) element ∧
      s'.table.find? (arrayKey (p.arrayCore (.simple array)).levels element) =
        some v.host.label := by
  cases fuel with
  | zero => exact absurd h ends_throw
  | succ fuel =>
    obtain ⟨t, h⟩ := ends_arrayType harray h
    obtain ⟨component, t₁, -, h⟩ := ends_bind.mp (ends_read_bind.mp h)
    obtain ⟨element, t₂, helement, h⟩ := ends_bind.mp h
    obtain ⟨label, t₃, hlabel, h⟩ := ends_bind.mp h
    have hremembers := remembers_projection p fuel
    obtain ⟨hle₂, hkey⟩ := bound_of_labelWith
      (fun l => grows_extractArray hremembers.toStable _ _ _ _ _ l) hlabel
    have hrest : t₃.table.Le s'.table ∧ v.host.label = label := by
      split at h
      · obtain ⟨rich, t₄, hrich, h⟩ := ends_bind.mp h
        obtain ⟨rfl, rfl⟩ := ends_pure.mp h
        exact ⟨((asks_classType hremembers.toStable _ _ _).grows _ _ _ hrich).table, rfl⟩
      · obtain ⟨rfl, rfl⟩ := ends_pure.mp h
        exact ⟨.refl _, rfl⟩
    obtain ⟨hle₃, rfl⟩ := hrest
    exact ⟨element, (HostLabelled.of_hostLabel helement).mono (hle₂.table.trans hle₃),
      hle₃ _ _ hkey⟩

/-! ## What the first level holds -/

/-- In an array of two levels over `Any?` the type `kotlin.Array` without an argument may have
stood for the inner level. Then it has been projected as the class that it is on its own. -/
structure BareLevel (p : Program) (t : LabelTable) (levels : Nat) (element : Label) : Prop where
  levels : levels = 2
  top : HostLabelled p t p.topType element
  rich : ∃ id nullable, p.fqName? id = some Builtins.boxedArray ∧
    (t.find? (richStart nullable ++ p.nameInKeys id)).isSome = true

/-- The label of what an array of so many levels over the element holds. -/
structure IsComponent (p : Program) (t : LabelTable) (levels : Nat) (element component : Label) :
    Prop where
  one : levels = 1 → component = element
  more : levels ≠ 1 → ¬BareLevel p t levels element →
    t.find? (arrayKey (levels - 1) element) = some component

theorem BareLevel.mono (h : BareLevel p t levels element) (hle : t.Le u) :
    BareLevel p u levels element := by
  obtain ⟨id, nullable, hname, hrich⟩ := h.rich
  obtain ⟨l, hl⟩ := Option.isSome_iff_exists.mp hrich
  exact ⟨h.levels, h.top.mono hle, id, nullable, hname, Option.isSome_of_eq_some (hle _ _ hl)⟩

theorem IsComponent.mono (h : IsComponent p t levels element component) (hle : t.Le u) :
    IsComponent p u levels element component where
  one := h.one
  more hlevels hbare := hle _ _ (h.more hlevels fun hearlier => hbare (hearlier.mono hle))

theorem bareLevel_of_ends {primitives : Bool} {inner : SimpleType} {v : TypeViews}
    (hshape : (p.arrayShape? inner).isSome = true) (hbare : p.isArray inner = false)
    (h : Ends p s ((projection fuel).type primitives (.simple inner)) v s') :
    ∃ id nullable, p.fqName? id = some Builtins.boxedArray ∧
      (s'.table.find? (richStart nullable ++ p.nameInKeys id)).isSome = true := by
  cases fuel with
  | zero => exact absurd h ends_throw
  | succ fuel =>
    obtain ⟨hboxed, hargs, -⟩ := Program.arrayCore_bare hshape hbare
    obtain ⟨id, name, hid, hname, hinfo, -⟩ := Program.named_of_arrayShape? hshape
    have hclass : p.IsClassType id inner := ⟨hid, ⟨name, hname, hinfo⟩, hbare⟩
    obtain ⟨t, h⟩ := Projection.ends_classType hclass h
    rw [hargs] at h
    obtain ⟨c, t₁, -, h⟩ := ends_bind.mp h
    obtain ⟨text, t₂, htext, h⟩ := ends_bind.mp (ends_read_bind.mp h)
    obtain ⟨labels, hlabels, rfl⟩ := answered_instanceName htext
    obtain rfl := List.forall₂_nil_left_iff.mp hlabels
    obtain ⟨rich, _, hrich, h⟩ := ends_bind.mp h
    obtain ⟨rfl, rfl⟩ := ends_pure.mp h
    rw [Program.arrayShape?, hid] at hboxed
    refine ⟨id, inner.nullable, Program.shapeOfClass?_eq_boxed_iff.mp hboxed, ?_⟩
    exact Option.isSome_of_eq_some (Projection.bound_of_richType hrich).2

/-- The component of an array is labelled before its element, which may be the same type. -/
theorem isComponent_of_ends (harray : p.isArray array = true)
    (hcomponent : Ends p s ((projection fuel).hostLabel
      (Projection.boxed p (p.arrayCore (.simple array)).isPrimitive (p.arrayElement array)))
      component s₁)
    (helement : Ends p s₁ ((projection fuel).hostLabel (coreElement p array)) element s₂) :
    IsComponent p s₂.table (p.arrayCore (.simple array)).levels element component := by
  have hle : s₁.table.Le s₂.table :=
    ((asks_hostLabel (stable_projection p fuel) _).grows _ _ _ helement).table
  have h := HostLabelled.of_hostLabel hcomponent
  rcases Program.arrayElement_cases harray with ⟨hone, hsame⟩ | ⟨inner, hinner, hshape, hcore⟩
  · rw [coreElement, hsame] at helement
    exact ⟨fun _ => (h.again (.refl _) helement).symm, fun hmore => absurd hone hmore⟩
  · have hcoreElement : coreElement p array = coreElement p inner := by
      rw [coreElement, coreElement, hcore]
    rw [hcoreElement] at helement
    rw [hinner, Program.boxed_array hshape] at h
    obtain ⟨_, _, v, _, hv, rfl, hearlier⟩ := h.ends_type
    rw [hcore]
    cases hinnerArray : p.isArray inner with
    | true =>
      obtain ⟨e, he, hkey⟩ := bound_of_array hinnerArray hv
      obtain rfl := he.again hearlier helement
      have hpos := Program.levels_pos hinnerArray
      refine ⟨fun hone => ?_, fun _ _ => hle _ _ (hearlier _ _ hkey)⟩
      exact absurd (Nat.succ.inj hone) (Nat.pos_iff_ne_zero.mp hpos)
    | false =>
      obtain ⟨-, -, hbare⟩ := Program.arrayCore_bare hshape hinnerArray
      rw [coreElement, hbare, Program.boxed_topType] at helement
      rw [hbare]
      refine ⟨nofun, fun _ hnone => absurd ⟨rfl, .of_hostLabel helement, ?_⟩ hnone⟩
      obtain ⟨id, nullable, hname, hrich⟩ := bareLevel_of_ends hshape hinnerArray hv
      obtain ⟨l, hl⟩ := Option.isSome_iff_exists.mp hrich
      exact ⟨id, nullable, hname, Option.isSome_of_eq_some (hle _ _ (hearlier _ _ hl))⟩

end Extract

end IrFacts
