import IrFacts.Proofs.Run.Names
import IrFacts.Proofs.Types.Form
import Mathlib.Logic.Relator

/-!
# Normal forms of types

Which form a type has is told by the program alone, but for the labels of what
owns the type variables in it. It has no more than one.
-/

set_option autoImplicit false

namespace IrFacts

/-- What a type is on the host, while its element and arguments still are types. -/
inductive HostShape where
  | unknown
  | primitive (name : String)
  | array (levels : Nat) (element : IrType)
  | ofClass (name : String) (arguments : List TypeArgument)
  | typeVariable (owner : DeclParent) (name : String)

namespace Program

variable (p : Program)

/-- The binary name of a class. What is no class goes by its number. -/
def nameInKeys (id : DeclId) : String := (p.binaryName? id).getD id.render

/-- A primitive stands where it is allowed, and elsewhere the class that boxes it. -/
def primitiveShape (info : Builtins.PrimitiveInfo) (allowed : Bool) : HostShape :=
  match info.primitive, allowed with
  | some name, true => .primitive name
  | _, _ => .ofClass (qualify info.hostPackage info.hostClass) []

def typeParameterShape (id : DeclId) : HostShape :=
  match p.decl? id, p.typeParameter? id with
  | some d, some t => .typeVariable d.parent t.name
  | _, _ => .unknown

def shape (primitives : Bool) : IrType → HostShape
  | .error _ => .unknown
  | .simple s =>
    match s.classifier with
    | .ofTypeParameter id => p.typeParameterShape id
    | .ofClass id =>
      match p.fqName? id with
      | none => .unknown
      | some name =>
        match Builtins.primitiveInfo? name with
        | some info => primitiveShape info (primitives && !s.nullable)
        | none =>
          if p.isArray s then
            let core := p.arrayCore (.simple s)
            .array core.levels (Projection.boxed p core.isPrimitive core.element)
          else .ofClass (p.nameInKeys (p.onHost id)) s.arguments

/-- A type over a class that is neither a primitive nor an array. -/
structure IsClassType (id : DeclId) (s : SimpleType) : Prop where
  classifier : s.classifier = .ofClass id
  named : ∃ name, p.fqName? id = some name ∧ Builtins.primitiveInfo? name = none
  notArray : p.isArray s = false

def OverClass (type : IrType) : Prop := ∃ id s, type = .simple s ∧ p.IsClassType id s

end Program

mutual

/-- Whether a type has the form, where `owner` tells the labels of what declares
type parameters. Only at the outside and in arrays it may be a primitive. -/
def HostForm.Of (p : Program) (owner : DeclParent → Label → Prop) : HostForm → Bool → IrType → Prop
  | .unknown, primitives, type => p.shape primitives type = .unknown
  | .primitive name, primitives, type => p.shape primitives type = .primitive name
  | .array levels form, primitives, type =>
    ∃ element, p.shape primitives type = .array levels element ∧ form.Of p owner true element
  | .ofClass name forms, primitives, type =>
    ∃ arguments, p.shape primitives type = .ofClass name arguments ∧
      HostArgument.AllOf p owner forms arguments
  | .typeVariable l name, primitives, type =>
    ∃ parent, p.shape primitives type = .typeVariable parent name ∧ owner parent l

def HostArgument.Of (p : Program) (owner : DeclParent → Label → Prop) :
    HostArgument → TypeArgument → Prop
  | .star, argument => argument = .star
  | .projection variance form, argument =>
    ∃ type, argument = .projection variance type ∧ form.Of p owner false type

def HostArgument.AllOf (p : Program) (owner : DeclParent → Label → Prop) :
    List HostArgument → List TypeArgument → Prop
  | [], arguments => arguments = []
  | a :: rest, arguments =>
    ∃ first more, arguments = first :: more ∧ a.Of p owner first ∧
      HostArgument.AllOf p owner rest more

end

def RichForm.Of (p : Program) (owner : DeclParent → Label → Prop) (r : RichForm) (type : IrType) :
    Prop :=
  ∃ id s, type = .simple s ∧ p.IsClassType id s ∧ r.nullable = s.nullable ∧
    p.binaryName? id = some r.name ∧ HostArgument.AllOf p owner r.arguments s.arguments

theorem RichForm.Of.overClass {p : Program} {owner : DeclParent → Label → Prop} {r : RichForm}
    {type : IrType} (h : r.Of p owner type) : p.OverClass type := by
  obtain ⟨id, s, htype, hid, -⟩ := h
  exact ⟨id, s, htype, hid⟩

/-! ## Names of classes -/

namespace Program

/-- No package and no class has the sign between the parts of a key in its name. -/
structure PlainClassNames (p : Program) : Prop where
  file : ∀ entry ∈ p.files, ';' ∉ entry.package.toList
  package : ∀ d ∈ p.declarations, ∀ name, d.parent = .package name → ';' ∉ name.toList
  ofClass : ∀ d ∈ p.declarations, ∀ c, d.kind = .class c → ';' ∉ c.name.toList

variable {p : Program}

theorem IsClassType.binaryName? {id : DeclId} {s : SimpleType} (h : p.IsClassType id s) :
    p.binaryName? id = some (p.nameInKeys id) := by
  obtain ⟨name, hname, -⟩ := h.named
  obtain ⟨chain, hchain, -⟩ := Option.map_eq_some_iff.mp hname
  simp [Program.nameInKeys, Program.binaryName?, hchain]

theorem PlainClassNames.nameInKeys (hp : p.PlainClassNames) (id : DeclId) :
    ';' ∉ (p.nameInKeys id).toList := by
  let P (text : String) : Prop := ';' ∉ text.toList
  have happend {a b : String} (ha : P a) (hb : P b) : P (a ++ b) := by
    simpa [P] using ⟨ha, hb⟩
  have hempty : P "" := by simp [P]
  unfold Program.nameInKeys Program.binaryName?
  cases hc : p.classChain? id with
  | none => exact happend (a := "d") (by simp [P]) (Label.notMem_digits (by decide) _)
  | some chain =>
    have hpackage : P (p.packageOf id) := packageOf_of hempty
      (fun hf => hp.file _ (Array.mem_of_getElem? hf))
      (fun hd hname => hp.package _ (Array.mem_of_getElem? hd) _ hname) id
    have hchain : ∀ name ∈ chain, P name := classChain?_of
      (fun hd hk => hp.ofClass _ (Array.mem_of_getElem? hd) _ hk) hc
    exact qualify_of happend (by simp [P]) hpackage
      (intercalate_of hempty happend (by simp [P]) hchain)

end Program

/-! ## No more than one form -/

section Unique

variable {p : Program} {owner : DeclParent → Label → Prop}

theorem HostForm.of_iff {f : HostForm} {primitives : Bool} {type : IrType} :
    f.Of p owner primitives type ↔
      match p.shape primitives type with
      | .unknown => f = .unknown
      | .primitive name => f = .primitive name
      | .array levels element => ∃ form, f = .array levels form ∧ form.Of p owner true element
      | .ofClass name arguments => ∃ forms, f = .ofClass name forms ∧
          HostArgument.AllOf p owner forms arguments
      | .typeVariable parent name => ∃ l, f = .typeVariable l name ∧ owner parent l := by
  cases f <;> simp only [HostForm.Of] <;> generalize p.shape primitives type = shape <;>
    cases shape <;> grind

mutual

/-- By induction on one of the forms: the shape of the type is that of both. -/
theorem HostForm.of_unique (ho : Relator.RightUnique owner) (f g : HostForm) {primitives : Bool}
    {type : IrType} (hf : f.Of p owner primitives type) (hg : g.Of p owner primitives type) :
    f = g := by
  rw [HostForm.of_iff] at hg
  match f, hf with
  | .unknown, hf =>
    rw [show p.shape primitives type = .unknown from hf] at hg
    exact hg.symm
  | .primitive name, hf =>
    rw [show p.shape primitives type = .primitive name from hf] at hg
    exact hg.symm
  | .array levels form, hf =>
    obtain ⟨element, hshape, hform⟩ := hf
    rw [hshape] at hg
    obtain ⟨other, rfl, hother⟩ := hg
    rw [HostForm.of_unique ho form other hform hother]
  | .ofClass name forms, hf =>
    obtain ⟨arguments, hshape, hforms⟩ := hf
    rw [hshape] at hg
    obtain ⟨others, rfl, hothers⟩ := hg
    rw [HostArgument.allOf_unique ho forms others hforms hothers]
  | .typeVariable l name, hf =>
    obtain ⟨parent, hshape, hl⟩ := hf
    rw [hshape] at hg
    obtain ⟨m, rfl, hm⟩ := hg
    rw [ho hl hm]

theorem HostArgument.of_unique (ho : Relator.RightUnique owner) (a b : HostArgument)
    {argument : TypeArgument} (ha : a.Of p owner argument) (hb : b.Of p owner argument) :
    a = b := by
  match a, ha with
  | .star, ha =>
    cases b with
    | star => rfl
    | projection _ _ =>
      obtain ⟨type, hb, -⟩ := hb
      cases (show argument = .star from ha).symm.trans hb
  | .projection variance form, ha =>
    obtain ⟨type, rfl, hform⟩ := ha
    cases b with
    | star => cases hb
    | projection other others =>
      obtain ⟨_, he, hothers⟩ := hb
      cases he
      rw [HostForm.of_unique ho form others hform hothers]

theorem HostArgument.allOf_unique (ho : Relator.RightUnique owner) (as bs : List HostArgument)
    {arguments : List TypeArgument} (ha : HostArgument.AllOf p owner as arguments)
    (hb : HostArgument.AllOf p owner bs arguments) : as = bs := by
  match as, ha with
  | [], ha =>
    cases bs with
    | nil => rfl
    | cons b bs =>
      obtain ⟨_, _, hb, -⟩ := hb
      cases (show arguments = [] from ha).symm.trans hb
  | a :: as, ha =>
    obtain ⟨first, more, rfl, hfirst, hmore⟩ := ha
    cases bs with
    | nil => cases hb
    | cons b bs =>
      obtain ⟨_, _, he, hb, hbs⟩ := hb
      cases he
      rw [HostArgument.of_unique ho a b hfirst hb, HostArgument.allOf_unique ho as bs hmore hbs]

end

theorem RichForm.of_unique (ho : Relator.RightUnique owner) {r q : RichForm} {type : IrType}
    (hr : r.Of p owner type) (hq : q.Of p owner type) : r = q := by
  obtain ⟨id, s, rfl, hid, hnullable, hname, hall⟩ := hr
  obtain ⟨_, _, he, hid', hnullable', hname', hall'⟩ := hq
  cases he
  cases hid.classifier.symm.trans hid'.classifier
  obtain ⟨nullable, name, arguments⟩ := r
  obtain ⟨nullable', name', arguments'⟩ := q
  obtain rfl : name = name' := Option.some.inj (hname.symm.trans hname')
  obtain rfl : nullable = nullable' := hnullable.trans hnullable'.symm
  obtain rfl : arguments = arguments' := HostArgument.allOf_unique ho _ _ hall hall'
  rfl

end Unique

end IrFacts
