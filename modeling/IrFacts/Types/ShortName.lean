import IrFacts.Types.Arrays

/-!
# Short names

How a type is shown: `int`, `Integer[]`, `List<? extends String>`.
-/

set_option autoImplicit false

namespace IrFacts

namespace Program

/-- What stands for a type without a name. -/
def noName : String := "???"

/-- The host class that stands in for a class, if the program declares it. -/
def hostClass? (p : Program) (id : DeclId) : Option DeclId := do
  p.classByFqName? (← Builtins.hostEquivalent? (← p.fqName? id))

def onHost (p : Program) (id : DeclId) : DeclId := (p.hostClass? id).getD id

def className (p : Program) (id : DeclId) : String := ((p.class? id).map (·.name)).getD noName

/-- How a class type is shown, its arguments aside. -/
inductive Shown where
  | plain (text : String)
  | array (shape : ArrayShape)
  | generic (id : DeclId)

/-- A primitive class goes by its host primitive where `primitives` allows
that, and by the class that boxes it elsewhere. -/
def shown (p : Program) (primitives nullable : Bool) (id : DeclId) : Shown :=
  match p.fqName? id with
  | none => .plain noName
  | some name =>
    match (Builtins.primitiveInfo? name).bind fun info => info.primitive.map (info, ·) with
    | some (info, primitive) =>
      .plain (if nullable || !primitives then info.hostClass else primitive)
    | none =>
      match p.shapeOfClass? id with
      | some shape => .array shape
      | none => .generic (p.onHost id)

def builtinShortName (p : Program) (name : String) (nullable : Bool) : String :=
  match p.builtin? name with
  | none => noName
  | some id =>
    match p.shown true nullable id with
    | .plain text => text
    | .generic shown => p.className shown
    | .array _ => p.className id

def variancePrefix : Variance → String
  | .invariant => ""
  | .covariant => "? extends "
  | .contravariant => "? super "

mutual

/-- The short name of a type. `nullable` shows the type as if it were so. -/
def shortNameAs (p : Program) (primitives nullable : Bool) : IrType → String
  | .error _ => noName
  | .simple s => p.simpleShortName primitives nullable s

def simpleShortName (p : Program) (primitives nullable : Bool) : SimpleType → String
  | ⟨.ofTypeParameter id, _, _, _⟩ => ((p.typeParameter? id).map (·.name)).getD noName
  | ⟨.ofClass id, isNullable, arguments, _⟩ =>
    match p.shown primitives (isNullable || nullable) id with
    | .plain text => text
    | .array (.primitive element) => p.builtinShortName element false ++ "[]"
    | .array .boxed => p.elementShortName arguments ++ "[]"
    | .generic shown => p.className shown ++ p.argumentsShortName arguments

/-- Elements of `kotlin.Array` are shown as nullable, so never as primitives. -/
def elementShortName (p : Program) : List TypeArgument → String
  | .projection _ type :: _ => p.shortNameAs true true type
  | _ => p.builtinShortName "Any" true

def argumentsShortName (p : Program) : List TypeArgument → String
  | [] => ""
  | a :: rest => "<" ++ p.argumentShortName a ++ p.moreShortNames rest ++ ">"

def moreShortNames (p : Program) : List TypeArgument → String
  | [] => ""
  | a :: rest => "," ++ p.argumentShortName a ++ p.moreShortNames rest

def argumentShortName (p : Program) : TypeArgument → String
  | .star => "?"
  | .projection variance type => variancePrefix variance ++ p.shortNameAs false false type

end

def shortName (p : Program) (type : IrType) (primitives : Bool) : String :=
  p.shortNameAs primitives false type

def classShortName (p : Program) (id : DeclId) (arguments : List TypeArgument) : String :=
  p.className id ++ p.argumentsShortName arguments

end Program

end IrFacts
