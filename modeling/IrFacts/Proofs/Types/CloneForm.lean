import IrFacts.Proofs.Program.SymbolTable
import IrFacts.Proofs.Types.Family

/-!
# The form of clones

What cloning gives is a normal form of the array: cloned again it stays, each level of
`kotlin.Array` in it is invariant in an element that may be null, and arrays that differ in no
more than use-site variance and nullability have the same one, once the outermost level may be
null.
-/

set_option autoImplicit false

namespace IrFacts

namespace Program

variable {p : Program} {s t w : SimpleType}

/-! ## Levels -/

/-- The array levels of a type from the outside inwards. -/
def arrayLevels (p : Program) : IrType → List SimpleType
  | .error _ => []
  | .simple ⟨classifier, nullable, arguments, abbreviation⟩ =>
    let s : SimpleType := ⟨classifier, nullable, arguments, abbreviation⟩
    match p.arrayShape? s with
    | none => []
    | some (.primitive _) => [s]
    | some .boxed =>
      match arguments with
      | .projection _ type :: _ => s :: p.arrayLevels type
      | _ => [s]

theorem arrayLevels_of_none (h : p.arrayShape? s = none) : p.arrayLevels (.simple s) = [] := by
  obtain ⟨classifier, nullable, arguments, abbreviation⟩ := s
  unfold arrayLevels
  simp only [h]

theorem arrayLevels_of_primitive {element : String}
    (h : p.arrayShape? s = some (.primitive element)) : p.arrayLevels (.simple s) = [s] := by
  obtain ⟨classifier, nullable, arguments, abbreviation⟩ := s
  unfold arrayLevels
  simp only [h]

theorem arrayLevels_topType (hplain : p.BuiltinsPlain) : p.arrayLevels p.topType = [] := by
  obtain ⟨top, htype, hshape, -⟩ | ⟨description, htype⟩ := topType_cases hplain <;> rw [htype]
  · exact arrayLevels_of_none hshape
  · rfl

theorem arrayLevels_of_boxed (hplain : p.BuiltinsPlain) (h : p.arrayShape? s = some .boxed) :
    p.arrayLevels (.simple s) = s :: p.arrayLevels (p.elementOf s.arguments) := by
  obtain ⟨classifier, nullable, arguments, abbreviation⟩ := s
  rcases arguments with _ | ⟨_ | ⟨variance, type⟩, rest⟩
  · simp only [arrayLevels, h, elementOf, arrayLevels_topType hplain]
  · simp only [arrayLevels, h, elementOf, arrayLevels_topType hplain]
  · simp only [arrayLevels, h, elementOf]

theorem arrayLevels_orNull (hplain : p.BuiltinsPlain) (s : SimpleType) :
    p.arrayLevels (.simple s.orNull) =
      (p.arrayLevels (.simple s)).modifyHead SimpleType.orNull := by
  cases hshape : p.arrayShape? s with
  | none => rw [arrayLevels_of_none hshape, arrayLevels_of_none (s := s.orNull) hshape]; rfl
  | some shape =>
    cases shape with
    | primitive element =>
      rw [arrayLevels_of_primitive hshape, arrayLevels_of_primitive (s := s.orNull) hshape]
      rfl
    | boxed =>
      rw [arrayLevels_of_boxed hplain hshape, arrayLevels_of_boxed (s := s.orNull) hplain hshape]
      rfl

/-! ## Levels of clones -/

/-- A level and what cloning makes of it: a level of `kotlin.Array` is invariant in an element
that may be null, or that is in error, and an array of primitives is only made nullable. -/
structure ClonedLevel (p : Program) (w clone : SimpleType) : Prop where
  classifier : clone.classifier = w.classifier
  boxed : p.arrayShape? clone = some .boxed → ∃ element rest,
    clone.arguments = .projection .invariant element :: rest ∧
      (element.isNullable = true ∨ ∃ description, element = .error description)
  primitive : ∀ element, p.arrayShape? w = some (.primitive element) → clone.orNull = w.orNull

theorem ClonedLevel.orNull (h : p.ClonedLevel w s) : p.ClonedLevel w s.orNull :=
  ⟨h.classifier, h.boxed, h.primitive⟩

theorem clonedLevels_orNull {ws clones : List SimpleType}
    (h : List.Forall₂ p.ClonedLevel ws clones) :
    List.Forall₂ p.ClonedLevel ws (clones.modifyHead SimpleType.orNull) := by
  cases h with
  | nil => exact .nil
  | cons hhead htail => exact .cons hhead.orNull htail

theorem cloneElement_nullable (p : Program) (arguments : List TypeArgument) :
    (p.cloneElement arguments).isNullable = true ∨
      ∃ description, p.cloneElement arguments = .error description := by
  have htop : p.topType.isNullable = true ∨ ∃ description, p.topType = .error description := by
    unfold topType
    cases p.builtinType "Any" with
    | simple s => exact .inl rfl
    | error description => exact .inr ⟨description, rfl⟩
  rcases arguments with _ | ⟨_ | ⟨variance, inner | description⟩, rest⟩
  · exact htop
  · exact htop
  · rw [cloneElement]
    split <;> exact .inl rfl
  · exact .inr ⟨description, rfl⟩

theorem cloneType_arguments (h : ∀ element, p.arrayShape? s ≠ some (.primitive element)) :
    ∃ rest, (p.cloneType s).arguments =
      .projection .invariant (p.cloneElement s.arguments) :: rest := by
  rw [cloneType_eq h]
  by_cases hsettled : p.Settled s.arguments
  · rw [if_pos hsettled]
    exact ⟨_, hsettled⟩
  · rw [if_neg hsettled]
    exact ⟨[], rfl⟩

theorem cloneType_classifier (p : Program) (s : SimpleType) :
    (p.cloneType s).classifier = s.classifier := by
  rcases p.cloneType_cases s with h | h <;> rw [h]
  rfl

def ClonesLevels (p : Program) (s : SimpleType) : Prop :=
  List.Forall₂ p.ClonedLevel (p.arrayLevels (.simple s)) (p.arrayLevels (.simple (p.cloneType s)))

theorem clonedLevels_cloneElement (hplain : p.BuiltinsPlain) {arguments : List TypeArgument}
    (h : ∀ a ∈ arguments, ∀ w ∈ a.parts, p.ClonesLevels w) :
    List.Forall₂ p.ClonedLevel (p.arrayLevels (p.elementOf arguments))
      (p.arrayLevels (p.cloneElement arguments)) := by
  have htop : List.Forall₂ p.ClonedLevel (p.arrayLevels p.topType) (p.arrayLevels p.topType) := by
    rw [arrayLevels_topType hplain]
    exact .nil
  rcases arguments with _ | ⟨_ | ⟨variance, inner | description⟩, rest⟩
  · exact htop
  · exact htop
  · rw [elementOf, cloneElement]
    by_cases hshape : (p.arrayShape? inner).isSome
    · rw [if_pos hshape, arrayLevels_orNull hplain]
      exact clonedLevels_orNull (h _ (List.mem_cons_self ..) inner inner.self_mem_parts)
    · have hnone := Option.not_isSome_iff_eq_none.mp hshape
      rw [if_neg hshape, arrayLevels_orNull hplain, arrayLevels_of_none hnone]
      exact .nil
  · exact .nil

/-- Whether a level is kept or made anew, its first argument is the element that cloning gives
it. -/
theorem clonesLevels_of_arguments (hplain : p.BuiltinsPlain)
    (h : ∀ a ∈ s.arguments, ∀ w ∈ a.parts, p.ClonesLevels w) : p.ClonesLevels s := by
  have hclone := arrayShape?_cloneType (p := p) s
  unfold ClonesLevels
  cases hshape : p.arrayShape? s with
  | none =>
    rw [arrayLevels_of_none hshape, arrayLevels_of_none (hclone.trans hshape)]
    exact .nil
  | some shape =>
    cases shape with
    | primitive element =>
      rw [cloneType_of_primitive hshape, arrayLevels_of_primitive hshape]
      refine .cons ⟨rfl, fun hboxed => ?_, fun _ _ => rfl⟩ .nil
      cases hshape.symm.trans hboxed
    | boxed =>
      have hother : ∀ element, p.arrayShape? s ≠ some (.primitive element) := by simp [hshape]
      obtain ⟨rest, harguments⟩ := cloneType_arguments hother
      have hlevel : p.ClonedLevel s (p.cloneType s) :=
        ⟨p.cloneType_classifier s, fun _ => ⟨_, rest, harguments, p.cloneElement_nullable _⟩,
          fun element hprimitive => absurd hprimitive (hother element)⟩
      rw [arrayLevels_of_boxed hplain hshape, arrayLevels_of_boxed hplain (hclone.trans hshape),
        harguments, elementOf]
      exact .cons hlevel (clonedLevels_cloneElement hplain h)

theorem clonesLevels (hplain : p.BuiltinsPlain) (s : SimpleType) : p.ClonesLevels s :=
  SimpleType.Inherits.holds (P := p.ClonesLevels)
    (fun _ h => clonesLevels_of_arguments hplain h) s

/-! ## Arrays with the same clone -/

/-- Types that differ in whether they may be null and, where they are arrays with one argument and
without abbreviation, in the use-site variance and in the same way in their elements. A star
stands for the top type. -/
inductive Resembles (p : Program) : IrType → IrType → Prop
  | error (description : String) : p.Resembles (.error description) (.error description)
  | null {s t : SimpleType} (h : s.orNull = t.orNull) : p.Resembles (.simple s) (.simple t)
  | array {classifier : Classifier} {nullable nullable' : Bool} {a b : TypeArgument}
    (hboxed : p.arrayShape? { classifier } = some .boxed)
    (h : p.Resembles (p.elementOf [a]) (p.elementOf [b])) :
    p.Resembles (.simple { classifier, nullable, arguments := [a] })
      (.simple { classifier, nullable := nullable', arguments := [b] })

theorem arrayShape?_congr (h : s.orNull = t.orNull) : p.arrayShape? s = p.arrayShape? t := by
  rw [← arrayShape?_orNull s, h, arrayShape?_orNull]

theorem cloneType_orNull_congr (h : s.orNull = t.orNull) :
    (p.cloneType s).orNull = (p.cloneType t).orNull := by
  have hshape : p.arrayShape? s = p.arrayShape? t := arrayShape?_congr h
  have harguments : s.arguments = t.arguments := by
    change s.orNull.arguments = t.orNull.arguments
    rw [h]
  by_cases hprimitive : ∃ element, p.arrayShape? s = some (.primitive element)
  · obtain ⟨element, hprimitive⟩ := hprimitive
    rw [cloneType_of_primitive hprimitive, cloneType_of_primitive (hshape ▸ hprimitive), h]
  · have hother := not_exists.mp hprimitive
    rw [cloneType_eq hother, cloneType_eq (hshape ▸ hother), ← harguments]
    by_cases hsettled : p.Settled s.arguments
    · rw [if_pos hsettled, if_pos hsettled, h]
    · have hclass : s.classifier = t.classifier := by
        change s.orNull.classifier = t.orNull.classifier
        rw [h]
      rw [if_neg hsettled, if_neg hsettled, broadened, broadened, hclass, harguments]

/-- Nothing of an array with one argument and without abbreviation is kept but its class. -/
theorem cloneType_orNull_of_boxed {classifier : Classifier}
    (h : p.arrayShape? { classifier } = some .boxed) (nullable : Bool) (a : TypeArgument) :
    (p.cloneType { classifier, nullable, arguments := [a] }).orNull =
      { classifier, nullable := true
        arguments := [.projection .invariant (p.cloneElement [a])] } := by
  have hother : ∀ element, p.arrayShape? { classifier, nullable, arguments := [a] } ≠
      some (.primitive element) := by
    intro element hprimitive
    cases h.symm.trans hprimitive
  rw [cloneType_eq hother]
  by_cases hsettled : p.Settled [a]
  · rw [if_pos hsettled]
    exact congrArg (fun arguments => ({ classifier, nullable := true, arguments } : SimpleType))
      hsettled
  · rw [if_neg hsettled]
    rfl

theorem Resembles.arrayShape?_eq (h : p.Resembles (.simple s) (.simple t)) :
    p.arrayShape? s = p.arrayShape? t := by
  cases h with
  | null h => exact arrayShape?_congr h
  | array => rfl

theorem Resembles.orNull_of_none (h : p.Resembles (.simple s) (.simple t))
    (hnone : p.arrayShape? s = none) : s.orNull = t.orNull := by
  cases h with
  | null h => exact h
  | array hboxed => cases hnone.symm.trans hboxed

theorem cloneElement_elementOf (hplain : p.BuiltinsPlain) (arguments : List TypeArgument) :
    p.cloneElement arguments =
      p.cloneElement [.projection .invariant (p.elementOf arguments)] := by
  rcases arguments with _ | ⟨_ | ⟨variance, inner | description⟩, rest⟩
  · exact (cloneElement_topType hplain).symm
  · exact (cloneElement_topType hplain).symm
  · rfl
  · rfl

/-- Elements that resemble each other are cloned to the same one, if arrays are. -/
theorem Resembles.cloneElement_eq {a b : IrType} (h : p.Resembles a b)
    (hclone : ∀ s t, a = .simple s → b = .simple t →
      (p.cloneType s).orNull = (p.cloneType t).orNull) :
    p.cloneElement [.projection .invariant a] = p.cloneElement [.projection .invariant b] := by
  cases a with
  | error description =>
    cases h
    rfl
  | simple s =>
    cases b with
    | error description => cases h
    | simple t =>
      rw [cloneElement, cloneElement, ← h.arrayShape?_eq]
      by_cases hshape : (p.arrayShape? s).isSome
      · rw [if_pos hshape, if_pos hshape, hclone s t rfl rfl]
      · rw [if_neg hshape, if_neg hshape,
          h.orNull_of_none (Option.not_isSome_iff_eq_none.mp hshape)]

theorem Resembles.cloneType_eq (hplain : p.BuiltinsPlain) {a b : IrType} (h : p.Resembles a b) :
    ∀ s t, a = .simple s → b = .simple t → (p.cloneType s).orNull = (p.cloneType t).orNull := by
  induction h with
  | error description => exact nofun
  | null h =>
    rintro s t ⟨⟩ ⟨⟩
    exact cloneType_orNull_congr h
  | @array classifier nullable nullable' a b hboxed h ih =>
    rintro s t ⟨⟩ ⟨⟩
    rw [cloneType_orNull_of_boxed hboxed, cloneType_orNull_of_boxed hboxed,
      cloneElement_elementOf hplain [a], cloneElement_elementOf hplain [b], h.cloneElement_eq ih]

/-! ## The normal form -/

/-- Cloning twice is cloning once; what it gives has invariant levels over elements that may be
null, and arrays of primitives as they were; and it does not depend on variance and nullability,
except for the nullability at the outside. -/
theorem clone_is_normal {d : Document} (hd : ofDocument d = .ok p) (hn : p.Numbered)
    (s : SimpleType) :
    p.cloneType (p.cloneType s) = p.cloneType s ∧ p.ClonesLevels s ∧
      (∀ element, p.arrayShape? s = some (.primitive element) → p.cloneType s = s) ∧
      ∀ t, p.Resembles (.simple s) (.simple t) →
        (p.cloneType s).orNull = (p.cloneType t).orNull := by
  have hplain := builtinsPlain_of_index (indexNames_ofDocument hd hn)
  refine ⟨cloneType_cloneType hplain s, clonesLevels hplain s, ?_, ?_⟩
  · exact fun element hprimitive => cloneType_of_primitive hprimitive
  · exact fun t h => h.cloneType_eq hplain s t rfl rfl

/-- The class of arrays, and one for what is in them. -/
def trays : Document :=
  { files := []
    declarations :=
      [{ parent := .package "kotlin", origin := .externalStub, kind := .class { name := "Array" } },
        { parent := .package "lib", kind := .class { name := "A" } }] }

def trayOf (variance : Variance) (nullable : Bool) (element : IrType) : SimpleType :=
  { classifier := .ofClass ⟨0⟩, nullable, arguments := [.projection variance element] }

def looseTrays : SimpleType :=
  trayOf .covariant false (.simple (trayOf .contravariant false (.ofClass ⟨1⟩ [])))

def tightTrays : SimpleType :=
  trayOf .invariant false
    (.simple (trayOf .invariant true (IrType.ofClass ⟨1⟩ []).makeNullable))

theorem clone_is_normal_trays : ∃ p, ofDocument trays = .ok p ∧ p.Numbered ∧
    (p.arrayLevels (.simple looseTrays)).length = 2 ∧
    p.cloneType (p.cloneType looseTrays) = p.cloneType looseTrays ∧
    p.ClonesLevels looseTrays ∧
    (p.cloneType looseTrays).orNull = (p.cloneType tightTrays).orNull := by
  have hall : (ofDocument trays).toOption.any (fun p =>
      decide (p.declarations.size ≤ UInt32.size) &&
        decide ((p.arrayLevels (.simple looseTrays)).length = 2) &&
        decide (p.shapeOfClass? ⟨0⟩ = some .boxed)) = true := by
    decide +kernel
  cases hd : ofDocument trays with
  | error e =>
    rw [hd] at hall
    cases hall
  | ok p =>
    rw [hd] at hall
    simp only [Except.toOption, Option.any_some, Bool.and_eq_true, decide_eq_true_eq] at hall
    obtain ⟨⟨hn, hlength⟩, hboxed⟩ := hall
    obtain ⟨htwice, hlevels, -, hsame⟩ := clone_is_normal hd hn looseTrays
    have hresembles : p.Resembles (.simple looseTrays) (.simple tightTrays) :=
      .array hboxed (.array hboxed (.null rfl))
    exact ⟨p, rfl, hn, hlength, htwice, hlevels, hsame tightTrays hresembles⟩

end Program

end IrFacts
