import IrFacts.Extraction.Projection
import IrFacts.Proofs.Run.Action

/-!
# More fuel, same answer

Fuel only decides whether a projection ends. One that ends does the same with
any larger supply, so answers do not depend on the fuel.
-/

set_option autoImplicit false

namespace IrFacts

namespace Extract

variable {α β : Type} {p : Program}

/-- Wherever the first action ends, the second one ends in the same way. -/
def Refines (p : Program) (m m' : Extract α) : Prop :=
  ∀ s a s', Ends p s m a s' → Ends p s m' a s'

theorem refines_refl (m : Extract α) : Refines p m m := fun _ _ _ h => h

theorem Refines.trans {m m' m'' : Extract α} (h : Refines p m m') (k : Refines p m' m'') :
    Refines p m m'' := fun s a s' he => k s a s' (h s a s' he)

theorem refines_throw (e : Stop) (m : Extract α) : Refines p (throw e) m :=
  fun _ _ _ h => absurd h ends_throw

theorem refines_bind {m m' : Extract α} {f f' : α → Extract β} (hm : Refines p m m')
    (hf : ∀ a, Refines p (f a) (f' a)) : Refines p (m >>= f) (m' >>= f') := by
  intro s b s' he
  obtain ⟨a, t, ha, hb⟩ := ends_bind.mp he
  exact ends_bind.mpr ⟨a, t, hm s a t ha, hf a t b s' hb⟩

theorem refines_read {f f' : Program → Extract β} (h : Refines p (f p) (f' p)) :
    Refines p (read >>= f) (read >>= f') :=
  fun s b s' he => ends_read_bind.mpr (h s b s' (ends_read_bind.mp he))

theorem refines_ite {c : Prop} [Decidable c] {m m' n n' : Extract α} (hm : Refines p m m')
    (hn : Refines p n n') : Refines p (if c then m else n) (if c then m' else n') := by
  split
  · exact hm
  · exact hn

theorem refines_when_bind {c : Prop} [Decidable c] {m m' : Extract Unit}
    {f f' : Unit → Extract β} (hm : Refines p m m') (hf : Refines p (f ()) (f' ())) :
    Refines p (if c then m >>= f else f ()) (if c then m' >>= f' else f' ()) :=
  refines_ite (refines_bind hm fun _ => hf) hf

theorem refines_forM {as : List α} {f f' : α → Extract PUnit} (h : ∀ a, Refines p (f a) (f' a)) :
    Refines p (as.forM f) (as.forM f') := by
  induction as with
  | nil => exact refines_refl _
  | cons a as ih => exact refines_bind (h a) fun _ => ih

theorem refines_mapM {as : List α} {f f' : α → Extract β} (h : ∀ a, Refines p (f a) (f' a)) :
    Refines p (as.mapM f) (as.mapM f') := by
  induction as with
  | nil => exact refines_refl _
  | cons a as ih =>
    rw [List.mapM_cons, List.mapM_cons]
    exact refines_bind (h a) fun _ => refines_bind ih fun _ => refines_refl _

theorem refines_foldlM {as : List α} {f f' : β → α → Extract β}
    (h : ∀ b a, Refines p (f b a) (f' b a)) (b : β) :
    Refines p (as.foldlM f b) (as.foldlM f' b) := by
  induction as generalizing b with
  | nil => exact refines_refl _
  | cons a as ih =>
    rw [List.foldlM_cons, List.foldlM_cons]
    exact refines_bind (h b a) fun _ => ih _

theorem refines_labelWith {key : String} {define define' : Label → Extract Unit}
    (h : ∀ l, Refines p (define l) (define' l)) :
    Refines p (labelWith key define) (labelWith key define') := by
  intro s l s' he
  refine (ends_labelWith none).mpr (((ends_labelWith none).mp he).imp_right ?_)
  rintro ⟨hnone, rfl, hdefine⟩
  exact ⟨hnone, rfl, h _ _ _ _ hdefine⟩

theorem refines_inFileOf {m m' : Extract α} (id : DeclId) (populate : Bool)
    (h : Refines p m m') : Refines p (inFileOf id populate m) (inFileOf id populate m') := by
  have rest (saved : Trap.Target) : Refines p
      (do
        let result ← m
        onFile fun file => ((), file.restore saved)
        return result)
      (do
        let result ← m'
        onFile fun file => ((), file.restore saved)
        return result) := refines_bind h fun _ => refines_refl _
  apply refines_read
  dsimp only
  split
  · exact refines_bind (refines_refl _) rest
  · exact refines_bind (refines_refl _) rest

end Extract

open Extract

/-- The second projection ends wherever the first one does, and in the same way. -/
structure Projection.Refines (p : Program) (π π' : Projection) : Prop where
  type : ∀ primitives type, Extract.Refines p (π.type primitives type) (π'.type primitives type)
  classInstance : ∀ id arguments,
    Extract.Refines p (π.classInstance id arguments) (π'.classInstance id arguments)
  parent : ∀ parent, Extract.Refines p (π.parent parent) (π'.parent parent)

namespace Projection.Refines

variable {p : Program} {π π' : Projection}

theorem hostLabel (h : Refines p π π') (type : IrType) :
    Extract.Refines p (π.hostLabel type) (π'.hostLabel type) :=
  refines_bind (h.type true type) fun _ => refines_refl _

theorem argument (h : Refines p π π') (a : TypeArgument) :
    Extract.Refines p (π.argument a) (π'.argument a) := by
  cases a with
  | star => exact refines_read (refines_bind (h.type _ _) fun _ => refines_refl _)
  | projection variance type => exact refines_bind (h.type _ _) fun _ => refines_refl _

theorem instanceName (h : Refines p π π') (id : DeclId) (arguments : List TypeArgument) :
    Extract.Refines p (π.instanceName id arguments) (π'.instanceName id arguments) :=
  refines_read (refines_foldlM
    (fun _ a => refines_bind (h.argument a) fun _ => refines_refl _) _)

theorem classSource (h : Refines p π π') (id : DeclId) :
    Extract.Refines p (π.classSource id) (π'.classSource id) :=
  refines_bind (h.instanceName id []) fun _ => refines_refl _

theorem supertypes (h : Refines p π π') (id : DeclId) (label : Label) :
    Extract.Refines p (π.supertypes id label) (π'.supertypes id label) := by
  apply refines_read
  split
  · refine refines_forM fun type => ?_
    unfold Projection.supertype
    split
    · exact refines_bind (h.classInstance _ _) fun _ => refines_refl _
    · exact refines_refl _
  · exact refines_refl _

theorem extractInstance (h : Refines p π π') (id : DeclId) (arguments : List TypeArgument)
    (label : Label) :
    Extract.Refines p (π.extractInstance id arguments label)
      (π'.extractInstance id arguments label) := by
  apply refines_read
  split
  · refine refines_bind (refines_refl _) fun package => refines_bind (h.classSource id) fun _ => ?_
    refine refines_bind (refines_refl _) fun _ =>
      refines_bind (refines_forM fun a => ?_) fun _ => ?_
    · exact refines_bind (h.argument a.1) fun _ => refines_refl _
    · refine refines_bind (refines_refl _) fun _ => refines_bind (refines_refl _) fun _ => ?_
      exact refines_bind (refines_refl _) fun _ =>
        refines_bind (h.supertypes id label) fun _ => refines_refl _
  · exact refines_refl _

theorem classInstanceStep (h : Refines p π π') (id : DeclId) (arguments : List TypeArgument) :
    Extract.Refines p (π.classInstanceStep id arguments) (π'.classInstanceStep id arguments) := by
  refine refines_read (refines_bind (h.instanceName _ _) fun name => ?_)
  refine refines_bind (refines_labelWith fun label => ?_) fun _ => refines_refl _
  exact refines_when_bind (refines_inFileOf _ _ (h.extractInstance _ _ _)) (refines_refl _)

theorem classType (h : Refines p π π') (id : DeclId) (arguments : List TypeArgument)
    (nullable : Bool) :
    Extract.Refines p (π.classType id arguments nullable) (π'.classType id arguments nullable) :=
  refines_bind (h.classInstance id arguments) fun _ => refines_read <|
    refines_bind (h.instanceName id arguments) fun _ => refines_refl _

theorem primitiveType (h : Refines p π π') (info : Builtins.PrimitiveInfo) (id : DeclId)
    (nullable primitives : Bool) :
    Extract.Refines p (π.primitiveType info id nullable primitives)
      (π'.primitiveType info id nullable primitives) :=
  refines_bind (refines_refl _) fun _ =>
    refines_bind (h.classInstance id []) fun _ => refines_refl _

theorem extractArray (h : Refines p π π') (array : SimpleType) (name : String) (levels : Nat)
    (element component label : Label) :
    Extract.Refines p (π.extractArray array name levels element component label)
      (π'.extractArray array name levels element component label) := by
  refine refines_read (refines_bind (refines_refl _) fun _ => ?_)
  have members : Extract.Refines p
      (do
        let length ← labelFor ("field;" ++ label.braced ++ ";length")
        let int ← π.type true (p.builtinType "Int")
        write (.fields length "length" int.host.label int.rich.label label length)
        let result ← π.type true (IrType.simple (p.cloneType array)).makeNullable
        let clone ← labelFor ("callable;" ++ label.braced ++ ".clone()" ++ label.braced)
        write (.methods clone "clone" "clone()" label result.rich.label label clone))
      (do
        let length ← labelFor ("field;" ++ label.braced ++ ";length")
        let int ← π'.type true (p.builtinType "Int")
        write (.fields length "length" int.host.label int.rich.label label length)
        let result ← π'.type true (IrType.simple (p.cloneType array)).makeNullable
        let clone ← labelFor ("callable;" ++ label.braced ++ ".clone()" ++ label.braced)
        write (.methods clone "clone" "clone()" label result.rich.label label clone)) :=
    refines_bind (refines_refl _) fun _ => refines_bind (h.type _ _) fun _ =>
      refines_bind (refines_refl _) fun _ => refines_bind (h.type _ _) fun _ => refines_refl _
  cases array.classifier with
  | ofClass id => exact refines_bind (h.supertypes id label) fun _ => members
  | ofTypeParameter id => exact members

theorem arrayType (h : Refines p π π') (array : SimpleType) :
    Extract.Refines p (π.arrayType array) (π'.arrayType array) := by
  refine refines_read (refines_bind (h.hostLabel _) fun component => ?_)
  refine refines_bind (h.hostLabel _) fun element => ?_
  refine refines_bind (refines_labelWith fun label => h.extractArray _ _ _ _ _ label) fun _ => ?_
  cases array.classifier with
  | ofClass id => exact refines_bind (h.classType _ _ _) fun _ => refines_refl _
  | ofTypeParameter id => exact refines_refl _

theorem callableKey (h : Refines p π π') (parent : DeclParent) (name : String)
    (parameters : List IrType) (result : IrType) :
    Extract.Refines p (π.callableKey parent name parameters result)
      (π'.callableKey parent name parameters result) := by
  refine refines_read (refines_bind (refines_mapM fun t => ?_) fun _ => ?_)
  · exact refines_bind (h.hostLabel _) fun _ => refines_refl _
  · exact refines_bind (h.hostLabel _) fun _ =>
      refines_bind (h.parent parent) fun _ => refines_refl _

theorem function (h : Refines p π π') (id : DeclId) :
    Extract.Refines p (π.function id) (π'.function id) := by
  apply refines_read
  split
  · exact refines_bind (h.callableKey _ _ _ _) fun _ => refines_refl _
  · exact refines_refl _

theorem parentStep (h : Refines p π π') (parent : DeclParent) :
    Extract.Refines p (π.parentStep parent) (π'.parentStep parent) := by
  cases parent with
  | file file => exact refines_refl _
  | package name => exact refines_refl _
  | decl id =>
    apply refines_read
    split
    · exact h.classSource id
    · exact h.function id
    · exact refines_refl _

theorem typeParameterKey? (h : Refines p π π') (id : DeclId) :
    Extract.Refines p (π.typeParameterKey? id) (π'.typeParameterKey? id) := by
  apply refines_read
  split
  · exact refines_bind (h.parent _) fun _ => refines_refl _
  · exact refines_refl _

theorem typeParameterType (h : Refines p π π') (id : DeclId) (nullable : Bool) :
    Extract.Refines p (π.typeParameterType id nullable) (π'.typeParameterType id nullable) :=
  refines_read (refines_bind (refines_bind (h.typeParameterKey? id) fun _ => refines_refl _)
    fun _ => refines_refl _)

theorem simpleType (h : Refines p π π') (primitives : Bool) (type : SimpleType) :
    Extract.Refines p (π.simpleType primitives type) (π'.simpleType primitives type) := by
  refine refines_read (refines_when_bind (refines_refl _) ?_)
  split
  · exact h.typeParameterType _ _
  · split
    · exact refines_refl _
    · split
      · exact h.primitiveType _ _ _ _
      · exact refines_ite (h.arrayType _) (h.classType _ _ _)

theorem step {n : Nat} (h : Refines p (projection n) (projection (n + 1))) :
    Refines p (projection (n + 1)) (projection (n + 2)) := by
  refine ⟨fun primitives type => ?_, h.classInstanceStep, h.parentStep⟩
  cases type with
  | simple type => exact h.simpleType primitives type
  | error description => exact refines_refl _

end Projection.Refines

variable {p : Program} {s s' t' : Session}

theorem refines_projection_succ (p : Program) (n : Nat) :
    Projection.Refines p (projection n) (projection (n + 1)) := by
  induction n with
  | zero => exact ⟨fun _ _ => refines_throw _ _, fun _ _ => refines_throw _ _,
      fun _ => refines_throw _ _⟩
  | succ n ih => exact ih.step

theorem refines_projection (p : Program) {m n : Nat} (h : m ≤ n) :
    Projection.Refines p (projection m) (projection n) := by
  induction h with
  | refl => exact ⟨fun _ _ => refines_refl _, fun _ _ => refines_refl _, fun _ => refines_refl _⟩
  | @step n _ ih =>
    have hsucc := refines_projection_succ p n
    exact ⟨fun primitives type => (ih.type primitives type).trans (hsucc.type primitives type),
      fun id arguments => (ih.classInstance id arguments).trans (hsucc.classInstance id arguments),
      fun parent => (ih.parent parent).trans (hsucc.parent parent)⟩

/-- Two supplies of fuel with which a parent gets its label give it the same one. -/
theorem parent_unique {m n : Nat} {parent : DeclParent} {l l' : Label}
    (h : Ends p s ((projection m).parent parent) l s')
    (k : Ends p s ((projection n).parent parent) l' t') : l = l' := by
  rcases Nat.le_total m n with hle | hle
  · exact (ends_unique ((refines_projection p hle).parent parent s l s' h) k).1
  · exact (ends_unique h ((refines_projection p hle).parent parent s l' t' k)).1

end IrFacts
