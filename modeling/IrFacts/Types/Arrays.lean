import IrFacts.Program
import IrFacts.Types.Builtins

/-!
# Array types

`kotlin.Array` takes its element type as an argument; the primitive arrays
are classes of their own, each with a fixed element. Both become host arrays,
whose key is the number of levels and the innermost element.
-/

set_option autoImplicit false

namespace IrFacts

inductive ArrayShape where
  | boxed
  /-- A primitive array, with the name of its element class. -/
  | primitive (element : String)
deriving DecidableEq, Repr

def ArrayShape.isPrimitive : ArrayShape → Bool
  | .boxed => false
  | .primitive _ => true

namespace Program

def builtinType (p : Program) (name : String) : IrType :=
  match p.builtin? name with
  | some id => .ofClass id []
  | none => .error ("missing builtin kotlin." ++ name)

def topType (p : Program) : IrType := (p.builtinType "Any").makeNullable

def shapeOfClass? (p : Program) (id : DeclId) : Option ArrayShape := do
  let name ← p.fqName? id
  if name = Builtins.boxedArray then some .boxed
  else (Builtins.arrayElement? name).map .primitive

def arrayShape? (p : Program) (s : SimpleType) : Option ArrayShape :=
  match s.classifier with
  | .ofClass id => p.shapeOfClass? id
  | .ofTypeParameter _ => none

def elementOf (p : Program) : List TypeArgument → IrType
  | .projection _ type :: _ => type
  | _ => p.topType

def arrayElement (p : Program) (s : SimpleType) : IrType :=
  match p.arrayShape? s with
  | some (.primitive element) => p.builtinType element
  | _ => p.elementOf s.arguments

/-- Whether a simple type becomes a host array. `kotlin.Array` without an
argument is only a class. -/
def isArray (p : Program) (s : SimpleType) : Bool :=
  match p.arrayShape? s with
  | some (.primitive _) => true
  | some .boxed => !s.arguments.isEmpty
  | none => false

/-- What is left when all array levels of a type are taken off. -/
structure ArrayCore where
  levels : Nat
  /-- Whether a primitive array was among the levels. -/
  isPrimitive : Bool
  element : IrType

def arrayCore (p : Program) : IrType → ArrayCore
  | .error description => ⟨0, false, .error description⟩
  | .simple ⟨classifier, nullable, arguments, abbreviation⟩ =>
    let s : SimpleType := ⟨classifier, nullable, arguments, abbreviation⟩
    match p.arrayShape? s with
    | none => ⟨0, false, .simple s⟩
    | some (.primitive element) => ⟨1, true, p.builtinType element⟩
    | some .boxed =>
      match arguments with
      | .projection _ type :: _ =>
        let core := p.arrayCore type
        { core with levels := core.levels + 1 }
      | _ => ⟨1, false, p.topType⟩

/-- Whether a type is one of the eight that host primitives stand for. -/
def isPrimitiveType (p : Program) : IrType → Bool
  | .error _ => false
  | .simple s =>
    match s.classifier with
    | .ofClass id =>
      !s.nullable && match p.fqName? id with
        | some name => Builtins.isPrimitiveClass name
        | none => false
    | .ofTypeParameter _ => false

/-- What cloning an array gives: the array type with every level invariant
and its elements nullable. A type that is so already is left alone. -/
def cloneType (p : Program) : SimpleType → SimpleType
  | ⟨classifier, nullable, arguments, abbreviation⟩ =>
    let s : SimpleType := ⟨classifier, nullable, arguments, abbreviation⟩
    let broadened (element : IrType) : SimpleType :=
      { classifier, nullable := true, arguments := [.projection .invariant element] }
    match p.arrayShape? s with
    | some (.primitive _) => s
    | _ =>
      match arguments with
      | .projection variance (.simple inner) :: _ =>
        let element : IrType :=
          if (p.arrayShape? inner).isSome then .simple { p.cloneType inner with nullable := true }
          else .simple { inner with nullable := true }
        if element = .simple inner && variance = .invariant then s else broadened element
      | .projection variance (.error description) :: _ =>
        if variance = .invariant then s else broadened (.error description)
      | _ => broadened p.topType

end Program

end IrFacts
