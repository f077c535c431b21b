import IrFacts.Proofs.Program.SymbolTable
import IrFacts.Proofs.Types.Parts

/-!
# Erasure and its rule

Erasure follows bounds and array elements for a limited number of steps. What it leaves
is erased for good, also where it was cut off: the second time the same arrays are passed
in no more steps than the first time.

The rule behind it has no limit. It is stated as a relation, which gives a type to every
type whose chain of bounds and elements does not come back to where it was. The limit is
never noticed on a chain of bounds alone, and on one that passes arrays only if it is
longer than the table. The rule keeps the nullability of every type on the way, whereas
erasure drops that of a type parameter with a bound.
-/

set_option autoImplicit false

namespace IrFacts

namespace Program

variable {p : Program} {type next u v : IrType} {s : SimpleType} {id : DeclId} {bound : IrType}

/-! ## One step of erasure -/

inductive Step (p : Program) : IrType → Prop
  | error (description : String) : p.Step (.error description)
  | bounded {s : SimpleType} {id : DeclId} {bound : IrType}
    (hs : s.classifier = .ofTypeParameter id) (hbound : p.firstBound? id = some bound) :
    p.Step (.simple s)
  | unbounded {s : SimpleType} {id : DeclId} (hs : s.classifier = .ofTypeParameter id)
    (hbound : p.firstBound? id = none) : p.Step (.simple s)
  | array {s : SimpleType} {id : DeclId} (hs : s.classifier = .ofClass id)
    (hshape : p.shapeOfClass? id = some .boxed) : p.Step (.simple s)
  | ofClass {s : SimpleType} {id : DeclId} (hs : s.classifier = .ofClass id)
    (hshape : p.shapeOfClass? id ≠ some .boxed) : p.Step (.simple s)

theorem step (p : Program) (type : IrType) : p.Step type := by
  cases type with
  | error description => exact .error description
  | simple s =>
    cases hs : s.classifier with
    | ofTypeParameter id =>
      cases hbound : p.firstBound? id with
      | none => exact .unbounded hs hbound
      | some bound => exact .bounded hs hbound
    | ofClass id =>
      by_cases hshape : p.shapeOfClass? id = some .boxed
      · exact .array hs hshape
      · exact .ofClass hs hshape

theorem eraseWithin_error (steps : Nat) (description : String) :
    p.eraseWithin steps (.error description) = .error description := by
  cases steps <;> rfl

theorem eraseWithin_bounded (steps : Nat) (hs : s.classifier = .ofTypeParameter id)
    (hbound : p.firstBound? id = some bound) :
    p.eraseWithin (steps + 1) (.simple s) = p.eraseWithin steps bound := by
  simp only [eraseWithin, hs, hbound]

theorem eraseWithin_unbounded (steps : Nat) (hs : s.classifier = .ofTypeParameter id)
    (hbound : p.firstBound? id = none) : p.eraseWithin (steps + 1) (.simple s) = p.topType := by
  simp only [eraseWithin, hs, hbound]

theorem eraseWithin_array (steps : Nat) (hs : s.classifier = .ofClass id)
    (hshape : p.shapeOfClass? id = some .boxed) :
    p.eraseWithin (steps + 1) (.simple s) =
      .simple { classifier := .ofClass id, nullable := s.nullable
                arguments := [.projection .invariant
                  (p.eraseWithin steps (p.elementOf s.arguments))] } := by
  simp only [eraseWithin, hs, hshape, if_true]

theorem eraseWithin_ofClass (steps : Nat) (hs : s.classifier = .ofClass id)
    (hshape : p.shapeOfClass? id ≠ some .boxed) :
    p.eraseWithin (steps + 1) (.simple s) =
      .simple { classifier := .ofClass id, nullable := s.nullable } := by
  simp only [eraseWithin, hs, hshape, if_false]

theorem topType_forms (p : Program) :
    (∃ id, p.builtin? "Any" = some id ∧
      p.topType = .simple { classifier := .ofClass id, nullable := true }) ∨
    ∃ description, p.topType = .error description := by
  unfold topType
  obtain ⟨id, hid, htype⟩ | ⟨description, htype⟩ := p.builtinType_cases "Any" <;> rw [htype]
  · exact .inl ⟨id, hid, rfl⟩
  · exact .inr ⟨description, rfl⟩

theorem eraseWithin_topType (hp : p.BuiltinsPlain) (steps : Nat) :
    p.eraseWithin steps p.topType = p.topType := by
  obtain ⟨id, hid, htop⟩ | ⟨description, htop⟩ := p.topType_forms
  · cases steps with
    | zero =>
      rw [htop, eraseWithin]
      exact htop
    | succ steps =>
      have hshape := hp "Any" (List.mem_cons_self ..) id hid
      rw [htop, eraseWithin_ofClass steps rfl (by simp [hshape])]
  · rw [htop, eraseWithin_error]

/-! ## Erased types -/

/-- Erasure has nothing left to do: classes have no arguments, but for arrays of one erased
element, and nothing is a type parameter or goes by an alias. -/
inductive Erased (p : Program) : IrType → Prop
  | error (description : String) : p.Erased (.error description)
  | ofClass {id : DeclId} (nullable : Bool) (hid : p.fqName? id ≠ some Builtins.boxedArray) :
    p.Erased (.simple { classifier := .ofClass id, nullable, arguments := []
                        abbreviation := none })
  | array {id : DeclId} {element : IrType} (nullable : Bool)
    (hid : p.fqName? id = some Builtins.boxedArray) (helement : p.Erased element) :
    p.Erased (.simple { classifier := .ofClass id, nullable
                        arguments := [.projection .invariant element], abbreviation := none })

theorem erased_topType (hp : p.BuiltinsPlain) : p.Erased p.topType := by
  obtain ⟨id, hid, htop⟩ | ⟨description, htop⟩ := p.topType_forms <;> rw [htop]
  · have hshape := hp "Any" (List.mem_cons_self ..) id hid
    refine .ofClass true fun hname => ?_
    cases hshape.symm.trans (shapeOfClass?_eq_boxed_iff.mpr hname)
  · exact .error description

/-- By induction on the steps, whether or not they are enough. -/
theorem erased_eraseWithin (hp : p.BuiltinsPlain) (steps : Nat) (type : IrType) :
    p.Erased (p.eraseWithin steps type) := by
  induction steps generalizing type with
  | zero =>
    cases type with
    | error description => exact .error description
    | simple s => exact erased_topType hp
  | succ steps ih =>
    cases p.step type with
    | error description => exact .error description
    | bounded hs hbound =>
      rw [eraseWithin_bounded steps hs hbound]
      exact ih _
    | unbounded hs hbound =>
      rw [eraseWithin_unbounded steps hs hbound]
      exact erased_topType hp
    | array hs hshape =>
      rw [eraseWithin_array steps hs hshape]
      exact .array _ (shapeOfClass?_eq_boxed_iff.mp hshape) (ih _)
    | ofClass hs hshape =>
      rw [eraseWithin_ofClass steps hs hshape]
      exact .ofClass _ (mt shapeOfClass?_eq_boxed_iff.mpr hshape)

/-- The second time only the arrays cost steps, and these were passed the first time. -/
theorem eraseWithin_eraseWithin (hp : p.BuiltinsPlain) {steps more : Nat} (h : steps ≤ more)
    (type : IrType) :
    p.eraseWithin more (p.eraseWithin steps type) = p.eraseWithin steps type := by
  induction steps generalizing more type with
  | zero =>
    cases type with
    | error description => exact eraseWithin_error more description
    | simple s => exact eraseWithin_topType hp more
  | succ steps ih =>
    obtain ⟨more, rfl⟩ : ∃ n, more = n + 1 := ⟨more - 1, by omega⟩
    have hle : steps ≤ more := Nat.le_of_succ_le_succ h
    cases p.step type with
    | error description => exact eraseWithin_error (more + 1) description
    | bounded hs hbound =>
      rw [eraseWithin_bounded steps hs hbound]
      exact ih (Nat.le_succ_of_le hle) _
    | unbounded hs hbound =>
      rw [eraseWithin_unbounded steps hs hbound]
      exact eraseWithin_topType hp _
    | array hs hshape =>
      rw [eraseWithin_array steps hs hshape, eraseWithin_array more rfl hshape, elementOf, ih hle]
    | ofClass hs hshape =>
      rw [eraseWithin_ofClass steps hs hshape, eraseWithin_ofClass more rfl hshape]

/-- Erasure leaves nothing to erase, and so erasing again changes nothing. -/
theorem erase_erased {d : Document} (hd : ofDocument d = .ok p) (hn : p.Numbered)
    (type : IrType) : p.Erased (p.erase type) ∧ p.erase (p.erase type) = p.erase type := by
  have hp := builtinsPlain_of_index (indexNames_ofDocument hd hn)
  exact ⟨erased_eraseWithin hp _ type, eraseWithin_eraseWithin hp (Nat.le_refl _) type⟩

/-- `T : Array<out U>` and `U : T`, so that the chain of bounds runs in a circle. -/
def entangled : Document :=
  { files := []
    declarations :=
      [{ parent := .package "kotlin", origin := .externalStub, kind := .class { name := "Array" } },
        { parent := .package "lib"
          kind := .typeParameter { name := "T", index := 0
                                   superTypes := [.ofClass ⟨0⟩ [.projection .covariant
                                     (.ofTypeParameter ⟨2⟩)]] } },
        { parent := .package "lib"
          kind := .typeParameter { name := "U", index := 1
                                   superTypes := [.ofTypeParameter ⟨1⟩] } }] }

theorem erase_erased_entangled : ∃ p, ofDocument entangled = .ok p ∧ p.Numbered ∧
    p.firstBound? ⟨1⟩ = some (.ofClass ⟨0⟩ [.projection .covariant (.ofTypeParameter ⟨2⟩)]) ∧
    p.firstBound? ⟨2⟩ = some (.ofTypeParameter ⟨1⟩) ∧
    p.Erased (p.erase (.ofTypeParameter ⟨1⟩)) ∧
      p.erase (p.erase (.ofTypeParameter ⟨1⟩)) = p.erase (.ofTypeParameter ⟨1⟩) := by
  have hall : (ofDocument entangled).toOption.any (fun p =>
      decide (p.declarations.size ≤ UInt32.size) &&
        decide (p.firstBound? ⟨1⟩ = some (.ofClass ⟨0⟩ [.projection .covariant
          (.ofTypeParameter ⟨2⟩)])) &&
        decide (p.firstBound? ⟨2⟩ = some (.ofTypeParameter ⟨1⟩))) = true := by decide +kernel
  cases hd : ofDocument entangled with
  | error e =>
    rw [hd] at hall
    cases hall
  | ok p =>
    rw [hd] at hall
    simp only [Except.toOption, Option.any_some, Bool.and_eq_true, decide_eq_true_eq] at hall
    obtain ⟨⟨hn, hfirst⟩, hsecond⟩ := hall
    exact ⟨p, rfl, hn, hfirst, hsecond, erase_erased hd hn _⟩

/-! ## The rule -/

/-- What a type is erased to, without any limit: a type parameter to what its first bound is
erased to, an array to the array of its erased element, and a class to itself without
arguments. What may be null still may be null. -/
inductive Erases (p : Program) : IrType → IrType → Prop
  | error (description : String) : p.Erases (.error description) (.error description)
  | unbounded {s : SimpleType} {id : DeclId} (hs : s.classifier = .ofTypeParameter id)
    (hbound : p.firstBound? id = none) : p.Erases (.simple s) p.topType
  | bounded {s : SimpleType} {id : DeclId} {bound u : IrType}
    (hs : s.classifier = .ofTypeParameter id) (hbound : p.firstBound? id = some bound)
    (h : p.Erases bound u) : p.Erases (.simple s) (if s.nullable then u.makeNullable else u)
  | array {s : SimpleType} {id : DeclId} {u : IrType} (hs : s.classifier = .ofClass id)
    (hshape : p.shapeOfClass? id = some .boxed) (h : p.Erases (p.elementOf s.arguments) u) :
    p.Erases (.simple s)
      (.simple { classifier := .ofClass id, nullable := s.nullable
                 arguments := [.projection .invariant u] })
  | ofClass {s : SimpleType} {id : DeclId} (hs : s.classifier = .ofClass id)
    (hshape : p.shapeOfClass? id ≠ some .boxed) :
    p.Erases (.simple s) (.simple { classifier := .ofClass id, nullable := s.nullable })

theorem Erases.unique (h : p.Erases type u) (k : p.Erases type v) : u = v := by
  induction h generalizing v with
  | error description =>
    cases k
    rfl
  | unbounded hs hbound => cases k <;> simp_all
  | bounded hs hbound _ ih =>
    cases k with
    | bounded hs' hbound' k =>
      cases hs.symm.trans hs'
      cases hbound.symm.trans hbound'
      rw [ih k]
    | unbounded hs' hbound' =>
      cases hs.symm.trans hs'
      cases hbound.symm.trans hbound'
    | _ hs' => cases hs.symm.trans hs'
  | array hs hshape _ ih =>
    cases k with
    | array hs' hshape' k =>
      cases hs.symm.trans hs'
      rw [ih k]
    | ofClass hs' hshape' =>
      cases hs.symm.trans hs'
      exact absurd hshape hshape'
    | _ hs' => cases hs.symm.trans hs'
  | ofClass hs hshape =>
    cases k with
    | array hs' hshape' _ =>
      cases hs.symm.trans hs'
      exact absurd hshape' hshape
    | ofClass hs' =>
      cases hs.symm.trans hs'
      rfl
    | _ hs' => cases hs.symm.trans hs'

/-! ## Chains of bounds and elements -/

/-- The type that the erasure of a type goes on with: the first bound of a type parameter,
or the element of an array. -/
def onward? (p : Program) : IrType → Option IrType
  | .error _ => none
  | .simple s =>
    match s.classifier with
    | .ofTypeParameter id => p.firstBound? id
    | .ofClass id =>
      if p.shapeOfClass? id = some .boxed then some (p.elementOf s.arguments) else none

/-- The type so many steps on, if the chain goes on so far. -/
def after (p : Program) : Nat → IrType → Option IrType
  | 0, type => some type
  | n + 1, type => (p.onward? type).bind (p.after n)

/-- The chain never comes to a type that it has come to before. -/
def Acyclic (p : Program) (type : IrType) : Prop :=
  ∀ m n u, p.after m type = some u → p.after n type = some u → m = n

theorem after_succ (h : p.onward? type = some next) (n : Nat) :
    p.after (n + 1) type = p.after n next := by
  rw [after, h, Option.bind_some]

theorem after_succ_of_none (h : p.onward? type = none) (n : Nat) :
    p.after (n + 1) type = none := by
  rw [after, h, Option.bind_none]

theorem after_add (m n : Nat) (type : IrType) :
    p.after (m + n) type = (p.after m type).bind (p.after n) := by
  induction m generalizing type with
  | zero => rw [Nat.zero_add, after, Option.bind_some]
  | succ m ih =>
    rw [Nat.succ_add, after, after, Option.bind_assoc]
    exact congrArg _ (funext ih)

theorem onward?_ofTypeParameter (hs : s.classifier = .ofTypeParameter id) :
    p.onward? (.simple s) = p.firstBound? id := by
  simp only [onward?, hs]

theorem onward?_array (hs : s.classifier = .ofClass id)
    (hshape : p.shapeOfClass? id = some .boxed) :
    p.onward? (.simple s) = some (p.elementOf s.arguments) := by
  simp only [onward?, hs, hshape, if_true]

theorem onward?_ofClass (hs : s.classifier = .ofClass id)
    (hshape : p.shapeOfClass? id ≠ some .boxed) : p.onward? (.simple s) = none := by
  simp only [onward?, hs, hshape, if_false]

theorem after_eq_none_of_le {m n : Nat} (h : p.after m type = none) (hle : m ≤ n) :
    p.after n type = none := by
  obtain ⟨k, rfl⟩ := Nat.exists_eq_add_of_le hle
  rw [after_add, h, Option.bind_none]

/-- A chain that comes to an end is no circle: behind a type that it comes to twice it would
be longer from the first time on than from the second. -/
theorem acyclic_of_ends {n : Nat} (h : p.after n type = none) : p.Acyclic type := by
  suffices hlater : ∀ i j u, i < j → p.after i type = some u → p.after j type ≠ some u by
    intro i j u hi hj
    rcases Nat.lt_trichotomy i j with hlt | heq | hlt
    · exact absurd hj (hlater i j u hlt hi)
    · exact heq
    · exact absurd hi (hlater j i u hlt hj)
  induction n using Nat.strongRecOn with
  | _ n ih =>
    intro i j u hlt hi hj
    have hjn : j ≤ n := by
      by_contra hgt
      cases hj.symm.trans (after_eq_none_of_le h (Nat.le_of_lt (Nat.lt_of_not_le hgt)))
    obtain ⟨k, rfl⟩ := Nat.exists_eq_add_of_le hjn
    have hsooner : p.after (i + k) type = none := by
      rw [after_add, hi, ← hj, ← after_add, h]
    exact ih (i + k) (Nat.add_lt_add_right hlt k) hsooner i j u hlt hi hj

theorem Acyclic.onward (h : p.Acyclic type) (hnext : p.onward? type = some next) :
    p.Acyclic next := by
  intro m n w hm hn
  rw [← after_succ hnext] at hm hn
  exact Nat.succ.inj (h (m + 1) (n + 1) w hm hn)

/-- A type parameter that the chain has gone through it does not come to again. -/
theorem Acyclic.not_again (h : p.Acyclic (.simple s)) (hs : s.classifier = .ofTypeParameter id)
    (hbound : p.firstBound? id = some bound) {n : Nat} {t : SimpleType}
    (ht : p.after n bound = some (.simple t)) : t.classifier ≠ .ofTypeParameter id := by
  intro hid
  have hfirst : p.onward? (.simple s) = some bound := (onward?_ofTypeParameter hs).trans hbound
  have hagain : p.after (n + 1) bound = some bound := by
    rw [after_add, ht, Option.bind_some, after, onward?_ofTypeParameter hid, hbound]
    rfl
  have heq := h 1 (n + 2) bound (after_succ hfirst 0) ((after_succ hfirst _).trans hagain)
  omega

theorem declares_of_firstBound? (h : p.firstBound? id = some bound) : p.Declares id := by
  obtain ⟨q, hq, -⟩ := Option.bind_eq_some_iff.mp h
  obtain ⟨d, hd, -⟩ := decl_of_typeParameter? hq
  exact Option.isSome_iff_exists.mpr ⟨d, hd⟩

/-- The element of an array is part of it, unless it has to be made up. -/
theorem elementOf_smaller (s : SimpleType) : p.elementOf s.arguments = p.topType ∨
    (p.elementOf s.arguments).nodes < (IrType.simple s).nodes := by
  obtain ⟨classifier, nullable, arguments, abbreviation⟩ := s
  rcases arguments with _ | ⟨_ | ⟨variance, element⟩, rest⟩
  · exact .inl rfl
  · exact .inl rfl
  · refine .inr ?_
    simp only [elementOf, IrType.nodes, SimpleType.nodes, TypeArgument.nodesOfAll,
      TypeArgument.nodes]
    omega

theorem ends_topType (h : p.Acyclic p.topType) : ∃ n, p.after n p.topType = none := by
  refine ⟨1, after_succ_of_none ?_ 0⟩
  cases hnext : p.onward? p.topType with
  | none => rfl
  | some next =>
    exfalso
    obtain ⟨id, -, htop⟩ | ⟨description, htop⟩ := p.topType_forms <;> rw [htop] at hnext
    · by_cases hshape : p.shapeOfClass? id = some .boxed
      · rw [onward?_array rfl hshape] at hnext
        -- An array of its own kind would come back to itself.
        have hloop : p.onward? p.topType = some p.topType := by
          rw [htop, onward?_array rfl hshape, ← htop]
          rfl
        cases h 0 1 p.topType rfl (after_succ hloop 0)
      · rw [onward?_ofClass rfl hshape] at hnext
        cases hnext
    · cases hnext

/-- Bounds use up the type parameters of the table, and between two bounds the type gets
smaller with each array. -/
theorem ends_of_met {steps : Nat} (met : List DeclId) (hnodup : met.Nodup)
    (hdeclared : ∀ f ∈ met, p.Declares f) (h : p.Acyclic type)
    (hnew : ∀ n t f, p.after n type = some (.simple t) → t.classifier = .ofTypeParameter f →
      f ∉ met)
    (hsteps : p.declarations.size < steps + met.length) : ∃ n, p.after n type = none := by
  induction steps generalizing met type with
  | zero =>
    have hlength := length_le_of_declares hnodup hdeclared
    omega
  | succ steps ih =>
    induction hnodes : type.nodes using Nat.strongRecOn generalizing type with
    | _ nodes smaller =>
      have further {next : IrType} (hnext : p.onward? type = some next)
          (hends : ∃ n, p.after n next = none) :
          ∃ n, p.after n type = none := by
        obtain ⟨n, hn⟩ := hends
        exact ⟨n + 1, (after_succ hnext n).trans hn⟩
      cases p.step type with
      | error description => exact ⟨1, after_succ_of_none rfl 0⟩
      | @bounded s id bound hs hbound =>
        have hnext := (onward?_ofTypeParameter hs).trans hbound
        refine further hnext (ih (id :: met) ?_ ?_ (h.onward hnext) ?_ ?_)
        · exact List.nodup_cons.mpr ⟨hnew 0 s id rfl hs, hnodup⟩
        · exact List.forall_mem_cons.mpr ⟨declares_of_firstBound? hbound, hdeclared⟩
        · intro n t f ht hf hmem
          rcases List.mem_cons.mp hmem with rfl | hmem
          · exact h.not_again hs hbound ht hf
          · exact hnew (n + 1) t f ((after_succ hnext n).trans ht) hf hmem
        · rw [List.length_cons]
          omega
      | unbounded hs hbound =>
        exact ⟨1, after_succ_of_none ((onward?_ofTypeParameter hs).trans hbound) 0⟩
      | @array s id hs hshape =>
        have hnext := onward?_array hs hshape
        refine further hnext ?_
        rcases p.elementOf_smaller s with htop | hless
        · rw [htop]
          exact ends_topType (htop ▸ h.onward hnext)
        · refine smaller _ (hnodes ▸ hless) (h.onward hnext) (fun n t f ht => ?_) rfl
          exact hnew (n + 1) t f ((after_succ hnext n).trans ht)
      | ofClass hs hshape => exact ⟨1, after_succ_of_none (onward?_ofClass hs hshape) 0⟩

theorem ends_of_acyclic (h : p.Acyclic type) : ∃ n, p.after n type = none :=
  ends_of_met [] .nil nofun h (fun _ _ _ _ _ => List.not_mem_nil)
    (Nat.lt_succ_self p.declarations.size)

theorem exists_erases {n : Nat} (h : p.after n type = none) : ∃ u, p.Erases type u := by
  induction n generalizing type with
  | zero => cases h
  | succ n ih =>
    cases p.step type with
    | error description => exact ⟨_, .error description⟩
    | bounded hs hbound =>
      rw [after_succ ((onward?_ofTypeParameter hs).trans hbound)] at h
      obtain ⟨u, hu⟩ := ih h
      exact ⟨_, .bounded hs hbound hu⟩
    | unbounded hs hbound => exact ⟨_, .unbounded hs hbound⟩
    | array hs hshape =>
      rw [after_succ (onward?_array hs hshape)] at h
      obtain ⟨u, hu⟩ := ih h
      exact ⟨_, .array hs hshape hu⟩
    | ofClass hs hshape => exact ⟨_, .ofClass hs hshape⟩

/-! ## How long a chain is -/

def IsBoxed (p : Program) (type : IrType) : Prop :=
  ∃ s id, type = .simple s ∧ s.classifier = .ofClass id ∧ p.shapeOfClass? id = some .boxed

/-- Where the chain has passed an array it has gone no more steps than the table has
declarations. -/
def ChainFits (p : Program) (type : IrType) : Prop :=
  ∀ m n array s, m < n → p.after m type = some array → p.IsBoxed array →
    p.after n type = some (.simple s) → n ≤ p.declarations.size

/-- Without arrays the chain goes from type parameter to type parameter, each another one. -/
theorem Acyclic.met {n : Nat} (h : p.Acyclic type)
    (harrays : ∀ m < n, ∀ w, p.after m type = some w → ¬p.IsBoxed w)
    (hn : p.after n type = some u) : ∃ met : List DeclId, met.length = n ∧ met.Nodup ∧
      ∀ f ∈ met, p.Declares f ∧ ∃ m t, p.after m type = some (.simple t) ∧
        t.classifier = .ofTypeParameter f := by
  induction n generalizing type with
  | zero => exact ⟨[], rfl, .nil, nofun⟩
  | succ n ih =>
    cases p.step type with
    | error description => cases hn
    | @bounded s id bound hs hbound =>
      have hnext := (onward?_ofTypeParameter hs).trans hbound
      rw [after_succ hnext] at hn
      obtain ⟨met, rfl, hnodup, hmet⟩ := ih (h.onward hnext)
        (fun m hm w hw => harrays (m + 1) (Nat.succ_lt_succ hm) w
          ((after_succ hnext m).trans hw)) hn
      refine ⟨id :: met, rfl, List.nodup_cons.mpr ⟨fun hmem => ?_, hnodup⟩,
        List.forall_mem_cons.mpr ⟨⟨declares_of_firstBound? hbound, 0, s, rfl, hs⟩,
          fun f hf => ?_⟩⟩
      · obtain ⟨-, m, t, ht, hid⟩ := hmet id hmem
        exact h.not_again hs hbound ht hid
      · obtain ⟨hdeclared, m, t, ht, hid⟩ := hmet f hf
        exact ⟨hdeclared, m + 1, t, (after_succ hnext m).trans ht, hid⟩
    | unbounded hs hbound =>
      rw [after_succ_of_none ((onward?_ofTypeParameter hs).trans hbound)] at hn
      cases hn
    | @array s id hs hshape =>
      exact absurd ⟨s, id, rfl, hs, hshape⟩ (harrays 0 (Nat.succ_pos n) _ rfl)
    | ofClass hs hshape =>
      rw [after_succ_of_none (onward?_ofClass hs hshape)] at hn
      cases hn

theorem Acyclic.lt_walkLimit (h : p.Acyclic type) (hfits : p.ChainFits type) {n : Nat}
    (hn : p.after n type = some (.simple s)) : n < p.walkLimit := by
  refine Nat.lt_succ_of_le ?_
  by_cases harrays : ∀ m < n, ∀ w, p.after m type = some w → ¬p.IsBoxed w
  · obtain ⟨met, rfl, hnodup, hmet⟩ := h.met harrays hn
    exact length_le_of_declares hnodup fun f hf => (hmet f hf).1
  · push Not at harrays
    obtain ⟨m, hlt, w, hw, hboxed⟩ := harrays
    exact hfits m n w s hlt hw hboxed hn

/-! ## Erasure against the rule -/

/-- No type parameter on the chain is nullable where the rule gives its bound a type that is
not, so that nothing is lost with the nullability of the type parameter. -/
def KeepsNull (p : Program) (type : IrType) : Prop :=
  ∀ n s id bound u, p.after n type = some (.simple s) → s.classifier = .ofTypeParameter id →
    p.firstBound? id = some bound → p.Erases bound u → s.nullable = true → u.makeNullable = u

theorem keepsNull_of_none (h : p.onward? type = none) : p.KeepsNull type := by
  intro n s id bound u hn hs hbound
  cases n with
  | zero =>
    cases hn
    cases (h.symm.trans (onward?_ofTypeParameter hs)).trans hbound
  | succ n =>
    rw [after_succ_of_none h] at hn
    cases hn

theorem keepsNull_array (hs : s.classifier = .ofClass id)
    (hshape : p.shapeOfClass? id = some .boxed) :
    p.KeepsNull (.simple s) ↔ p.KeepsNull (p.elementOf s.arguments) := by
  have hnext := onward?_array hs hshape
  refine ⟨fun h n t f bound u ht => h (n + 1) t f bound u ((after_succ hnext n).trans ht),
    fun h n t f bound u ht hf => ?_⟩
  cases n with
  | zero =>
    cases ht
    cases hs.symm.trans hf
  | succ n => exact h n t f bound u ((after_succ hnext n).symm.trans ht) hf

theorem keepsNull_bounded (hs : s.classifier = .ofTypeParameter id)
    (hbound : p.firstBound? id = some bound) (hu : p.Erases bound u) :
    p.KeepsNull (.simple s) ↔ (s.nullable = true → u.makeNullable = u) ∧ p.KeepsNull bound := by
  have hnext := (onward?_ofTypeParameter hs).trans hbound
  refine ⟨fun h => ⟨h 0 s id bound u rfl hs hbound hu, fun n t f other w ht =>
    h (n + 1) t f other w ((after_succ hnext n).trans ht)⟩, ?_⟩
  rintro ⟨hhere, hrest⟩ n t f other w ht
  cases n with
  | zero =>
    cases ht
    intro hf hother hw
    cases hs.symm.trans hf
    cases hbound.symm.trans hother
    rw [hw.unique hu]
    exact hhere
  | succ n => exact hrest n t f other w ((after_succ hnext n).symm.trans ht)

theorem makeNullable_eq_self (h : u.isNullable = true) : u.makeNullable = u := by
  cases u with
  | error description => rfl
  | simple s =>
    obtain ⟨classifier, nullable, arguments, abbreviation⟩ := s
    obtain rfl : nullable = true := h
    rfl

theorem isNullable_of_eq_makeNullable (h : v = u.makeNullable) (hnull : v.isNullable = true →
    u.isNullable = true) : u.makeNullable = u := by
  cases u with
  | error description => rfl
  | simple s => exact makeNullable_eq_self (hnull (h ▸ rfl))

/-- By induction on the rule, with steps enough for the whole chain. Erasure never gives a
nullable type where the rule does not, so a nullability that was lost on the way does not
come back. -/
theorem Erases.eraseWithin (h : p.Erases type u) {steps : Nat}
    (hsteps : ∀ n s, p.after n type = some (.simple s) → n < steps) :
    ((p.eraseWithin steps type).isNullable = true → u.isNullable = true) ∧
      (p.eraseWithin steps type = u ↔ p.KeepsNull type) := by
  have further {n : Nat} {type next : IrType}
      (hsteps : ∀ m s, p.after m type = some (.simple s) → m < n + 1)
      (hnext : p.onward? type = some next) : ∀ m s, p.after m next = some (.simple s) → m < n :=
    fun m s hm => Nat.lt_of_succ_lt_succ (hsteps (m + 1) s ((after_succ hnext m).trans hm))
  induction h generalizing steps with
  | error description =>
    rw [eraseWithin_error]
    exact ⟨id, iff_of_true rfl (keepsNull_of_none rfl)⟩
  | @unbounded s id hs hbound =>
    obtain ⟨n, rfl⟩ := Nat.exists_eq_add_one.mpr (hsteps 0 s rfl)
    rw [eraseWithin_unbounded n hs hbound]
    exact ⟨fun h => h,
      iff_of_true rfl (keepsNull_of_none ((onward?_ofTypeParameter hs).trans hbound))⟩
  | @bounded s id bound u hs hbound hu ih =>
    obtain ⟨n, rfl⟩ := Nat.exists_eq_add_one.mpr (hsteps 0 s rfl)
    obtain ⟨hnull, hrule⟩ := ih (further hsteps ((onward?_ofTypeParameter hs).trans hbound))
    rw [eraseWithin_bounded n hs hbound, keepsNull_bounded hs hbound hu]
    split
    case isFalse hs' => exact ⟨hnull, hrule.trans (and_iff_right fun h => absurd h hs').symm⟩
    case isTrue hs' =>
      refine ⟨fun h => by rw [makeNullable_eq_self (hnull h), hnull h], fun h => ?_, ?_⟩
      · have hsame := isNullable_of_eq_makeNullable h hnull
        exact ⟨fun _ => hsame, hrule.mp (h.trans hsame)⟩
      · rintro ⟨hsame, hrest⟩
        rw [hsame hs', hrule.mpr hrest]
  | @array s id u hs hshape hu ih =>
    obtain ⟨n, rfl⟩ := Nat.exists_eq_add_one.mpr (hsteps 0 s rfl)
    obtain ⟨-, hrule⟩ := ih (further hsteps (onward?_array hs hshape))
    rw [eraseWithin_array n hs hshape, keepsNull_array hs hshape, ← hrule]
    refine ⟨fun h => h, ?_⟩
    simp only [IrType.simple.injEq, SimpleType.mk.injEq, List.cons.injEq,
      TypeArgument.projection.injEq, true_and, and_true]
  | @ofClass s id hs hshape =>
    obtain ⟨n, rfl⟩ := Nat.exists_eq_add_one.mpr (hsteps 0 s rfl)
    rw [eraseWithin_ofClass n hs hshape]
    exact ⟨fun h => h, iff_of_true rfl (keepsNull_of_none (onward?_ofClass hs hshape))⟩

theorem Erases.nullable (h : p.Erases type u) (hnull : type.isNullable = true)
    (hu : u = .simple s) : s.nullable = true := by
  cases h with
  | error => cases hnull
  | unbounded =>
    obtain ⟨id, -, htop⟩ | ⟨description, htop⟩ := p.topType_forms <;> cases htop.symm.trans hu
    rfl
  | @bounded t id bound w =>
    rw [if_pos (show t.nullable = true from hnull)] at hu
    cases w <;> cases hu
    rfl
  | array =>
    cases hu
    exact hnull
  | ofClass =>
    cases hu
    exact hnull

/-- On every chain that is no circle the rule gives one type. Where the limit does not cut
the chain off, erasure gives this type just if no nullability is lost with that of a type
parameter, and then what may be null still may be null. -/
theorem erase_follows_rule (h : p.Acyclic type) (hfits : p.ChainFits type) :
    ∃ u, (∀ v, p.Erases type v ↔ v = u) ∧ (p.erase type = u ↔ p.KeepsNull type) ∧
      (p.KeepsNull type → type.isNullable = true →
        ∀ s, p.erase type = .simple s → s.nullable = true) := by
  obtain ⟨n, hn⟩ := ends_of_acyclic h
  obtain ⟨u, hu⟩ := exists_erases hn
  obtain ⟨-, hrule⟩ := hu.eraseWithin fun m s hm => h.lt_walkLimit hfits hm
  refine ⟨u, fun v => ⟨fun hv => hv.unique hu, fun hv => hv ▸ hu⟩, hrule, ?_⟩
  intro hkeeps hnull s hs
  exact hu.nullable hnull ((hrule.mpr hkeeps).symm.trans hs)

/-- `T : Array<out U>` and `U : A?`. -/
def layered : Document :=
  { files := []
    declarations :=
      [{ parent := .package "kotlin", origin := .externalStub, kind := .class { name := "Array" } },
        { parent := .package "lib", kind := .class { name := "A" } },
        { parent := .package "lib"
          kind := .typeParameter { name := "T", index := 0
                                   superTypes := [.ofClass ⟨0⟩ [.projection .covariant
                                     (.ofTypeParameter ⟨3⟩)]] } },
        { parent := .package "lib"
          kind := .typeParameter { name := "U", index := 1
                                   superTypes := [(IrType.ofClass ⟨1⟩ []).makeNullable] } }] }

def layeredType : IrType :=
  (IrType.ofClass ⟨0⟩ [.projection .invariant (.ofTypeParameter ⟨2⟩)]).makeNullable

theorem erase_follows_rule_layered : ∃ p, ofDocument layered = .ok p ∧
    p.Acyclic layeredType ∧ p.ChainFits layeredType ∧
    ∃ u, (∀ v, p.Erases layeredType v ↔ v = u) ∧
      (p.erase layeredType = u ↔ p.KeepsNull layeredType) ∧
      (p.KeepsNull layeredType → layeredType.isNullable = true →
        ∀ s, p.erase layeredType = .simple s → s.nullable = true) := by
  have hall : (ofDocument layered).toOption.any (fun p =>
      decide (5 ≤ p.declarations.size) && decide (p.after 5 layeredType = none)) = true := by
    decide +kernel
  cases hd : ofDocument layered with
  | error e =>
    rw [hd] at hall
    cases hall
  | ok p =>
    rw [hd] at hall
    simp only [Except.toOption, Option.any_some, Bool.and_eq_true, decide_eq_true_eq] at hall
    obtain ⟨hsize, hends⟩ := hall
    have hacyclic := acyclic_of_ends hends
    have hfits : p.ChainFits layeredType := by
      intro m n array s _ _ _ hn
      by_contra hlong
      cases hn.symm.trans (after_eq_none_of_le hends (by omega))
    exact ⟨p, rfl, hacyclic, hfits, erase_follows_rule hacyclic hfits⟩

end Program

end IrFacts
