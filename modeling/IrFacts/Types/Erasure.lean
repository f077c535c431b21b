import IrFacts.Types.Arrays

/-!
# Erasure

A type parameter becomes its first upper bound, an array erases its element,
and a class drops its arguments. Nullability is kept. Bounds may run in a
circle: after more steps than there are declarations the answer is `Any?`.
-/

set_option autoImplicit false

namespace IrFacts

namespace Program

def firstBound? (p : Program) (id : DeclId) : Option IrType := do
  (← p.typeParameter? id).superTypes.head?

def eraseWithin (p : Program) : Nat → IrType → IrType
  | _, .error description => .error description
  | 0, .simple _ => p.topType
  | steps + 1, .simple s =>
    match s.classifier with
    | .ofTypeParameter id =>
      match p.firstBound? id with
      | some bound => p.eraseWithin steps bound
      | none => p.topType
    | .ofClass id =>
      let arguments : List TypeArgument :=
        if p.shapeOfClass? id = some .boxed then
          [.projection .invariant (p.eraseWithin steps (p.elementOf s.arguments))]
        else []
      .simple { classifier := .ofClass id, nullable := s.nullable, arguments }

def erase (p : Program) (type : IrType) : IrType := p.eraseWithin p.walkLimit type

end Program

end IrFacts
