import IrFacts.Extraction.Labels
import IrFacts.Types.Erasure
import IrFacts.Types.ShortName

/-!
# Projection of types

A type is seen in two ways: as the host sees it, with primitives and arrays,
and as the rich type system does, with nullability. Projecting a type labels
both views, and writes what defines a label when the label is new.

Types lead to classes, classes to their supertypes and arguments, and type
parameters to what declares them, so projection runs in circles. A circle ends
where it meets a label that exists. The steps below are written over
`Projection`, the three operations through which every circle passes, and
`projection` ties the knot over a supply of fuel.
-/

set_option autoImplicit false

namespace IrFacts

/-- One view of a type: its label, and how it reads. -/
structure TypeView where
  label : Label
  signature : String
deriving DecidableEq, Repr, Inhabited

structure TypeViews where
  host : TypeView
  rich : TypeView
deriving DecidableEq, Repr, Inhabited

namespace TypeViews

def unknown : TypeViews := ⟨⟨.placeholder, "unknown"⟩, ⟨.placeholder, "unknown"⟩⟩

end TypeViews

/-- The label of a class with arguments, and the class that it denotes. -/
structure ClassInstance where
  label : Label
  id : DeclId
deriving DecidableEq, Repr

/-- The operations that projection needs of itself. -/
structure Projection where
  /-- Projects a type, as a host primitive only where that is allowed. -/
  type : (primitives : Bool) → IrType → Extract TypeViews
  /-- Labels a class with arguments. -/
  classInstance : DeclId → List TypeArgument → Extract ClassInstance
  /-- Labels what a declaration is nested in. -/
  parent : DeclParent → Extract Label

namespace Projection

open Extract

variable (π : Projection)

def hostLabel (type : IrType) : Extract Label := return (← π.type true type).host.label

/-! ## Type arguments -/

def wildcard (kind : Trap.WildcardKind) (key : String) (argument : TypeArgument) (bound : Label) :
    Extract Label := do
  let name := (← read).argumentShortName argument
  labelWith key fun id => do
    write (.wildcards id name kind)
    write (.hasLocation id (← unknownLocation))
    let _ ← labelWith ("bound;0;" ++ id.braced) fun b => write (.typeBounds b bound 0 id)

/-- An invariant argument goes by its type, any other by a wildcard. -/
def argument : TypeArgument → Extract Label
  | .star => do
    let bound := (← π.type false ((← read).builtinType "Any")).host.label
    wildcard .extends "wildcard;" .star bound
  | .projection variance type => do
    let bound := (← π.type false type).host.label
    match variance with
    | .invariant => return bound
    | .covariant =>
      wildcard .extends ("wildcard;extends" ++ bound.braced) (.projection variance type) bound
    | .contravariant =>
      wildcard .super ("wildcard;super" ++ bound.braced) (.projection variance type) bound

/-! ## Classes -/

def instanceName (id : DeclId) (arguments : List TypeArgument) : Extract String := do
  let name := ((← read).binaryName? id).getD id.render
  arguments.foldlM (fun text a => return text ++ ";" ++ (← π.argument a).braced) name

def classSource (id : DeclId) : Extract Label := do
  labelFor ("class;" ++ (← π.instanceName id []))

def writeClassOrInterface (kind : ClassKind) (id : Label) (name : String) (package source : Label) :
    Extract Unit := do
  if kind = .interface then write (.interfaces id name package source)
  else write (.classes id name package source)
  if kind = .enumClass then write (.isEnumType id)

def classModifiers (id : DeclId) (label : Label) : Extract Unit := do
  match (← read).class? id with
  | some c => if c.modality = .abstract then addModifiers label ["abstract"]
  | none => pure ()

def supertype (c : ClassDecl) (label : Label) (type : IrType) : Extract Unit := do
  match type.classId?, type.simple? with
  | some id, some s => write (.extendsReftype label (← π.classInstance id s.arguments).label)
  | _, _ => complain (.supertype ((← read).shortName type false) c.name)

def supertypes (id : DeclId) (label : Label) : Extract Unit := do
  match (← read).class? id with
  | some c => c.superTypes.forM (π.supertype c label)
  | none => pure ()

def extractInstance (id : DeclId) (arguments : List TypeArgument) (label : Label) :
    Extract Unit := do
  let p ← read
  match p.decl? id, p.class? id with
  | some d, some c =>
    let package ← packageLabel (p.packageOf id)
    let source ← π.classSource id
    writeClassOrInterface c.kind label (p.classShortName id arguments) package source
    arguments.zipIdx.forM fun (a, index) => do
      write (.typeArgs (← π.argument a) index label)
    write (.isParameterized label)
    write (.erasure label source)
    classModifiers id label
    π.supertypes id label
    locate label d.span
  | _, _ => pure ()

/-- The label of a class with arguments, once the host class that stands in
for it has been found. -/
def classInstanceStep (id : DeclId) (arguments : List TypeArgument) : Extract ClassInstance := do
  let p ← read
  let shown := p.onHost id
  let key := "class;" ++ (← π.instanceName shown arguments)
  let label ← labelWith key fun label => do
    if !arguments.isEmpty then
      inFileOf shown false (π.extractInstance shown arguments label)
    scheduleIfExternal id
    match p.hostClass? id with
    | some host => scheduleIfExternal host
    | none => pure ()
  return ⟨label, shown⟩

/-! ## Simple types -/

def richType (name : String) (classLabel : Label) (nullable : Bool) : Extract TypeView := do
  if nullable then
    let label ← labelWith ("kt_type;nullable;" ++ name) fun id =>
      write (.ktNullableTypes id classLabel)
    return ⟨label, name ++ "?"⟩
  else
    let label ← labelWith ("kt_type;notnull;" ++ name) fun id =>
      write (.ktNotnullTypes id classLabel)
    return ⟨label, name⟩

def classType (id : DeclId) (arguments : List TypeArgument) (nullable : Bool) :
    Extract TypeViews := do
  let host ← π.classInstance id arguments
  let signature := ((← read).fqName? host.id).getD host.id.render
  let name ← π.instanceName id arguments
  let rich ← richType name host.label nullable
  return ⟨⟨host.label, signature⟩, rich⟩

def primitiveHost (info : Builtins.PrimitiveInfo) (allowed : Bool) : Extract TypeView := do
  match info.primitive, allowed with
  | some name, true =>
    let label ← labelWith ("type;" ++ name) fun id => write (.primitives id name)
    return ⟨label, name⟩
  | _, _ =>
    let label ← namedClass info.hostPackage info.hostClass
    return ⟨label, qualify info.hostPackage info.hostClass⟩

def primitiveType (info : Builtins.PrimitiveInfo) (id : DeclId) (nullable primitives : Bool) :
    Extract TypeViews := do
  let host ← primitiveHost info (primitives && !nullable)
  let richClass ← π.classInstance id []
  let rich ← richType (qualify info.richPackage info.richClass) richClass.label nullable
  return ⟨host, rich⟩

/-! ## Arrays -/

/-- Boxes an element, unless the array is one of primitives. -/
def boxed (p : Program) (isPrimitive : Bool) (type : IrType) : IrType :=
  if p.isPrimitiveType type && !isPrimitive then type.makeNullable else type

/-- What is to be said of an array type: its members are `length` and `clone`. -/
def extractArray (array : SimpleType) (name : String) (levels : Nat) (element component : Label)
    (label : Label) : Extract Unit := do
  let p ← read
  write (.arrays label name element levels component)
  match array.classifier with
  | .ofClass id => π.supertypes id label
  | .ofTypeParameter _ => pure ()
  let length ← labelFor ("field;" ++ label.braced ++ ";length")
  let int ← π.type true (p.builtinType "Int")
  write (.fields length "length" int.host.label int.rich.label label length)
  let result ← π.type true (IrType.simple (p.cloneType array)).makeNullable
  let clone ← labelFor ("callable;" ++ label.braced ++ ".clone()" ++ label.braced)
  write (.methods clone "clone" "clone()" label result.rich.label label clone)

def arrayType (array : SimpleType) : Extract TypeViews := do
  let p ← read
  let core := p.arrayCore (.simple array)
  let component ← π.hostLabel (boxed p core.isPrimitive (p.arrayElement array))
  let element ← π.hostLabel (boxed p core.isPrimitive core.element)
  let name := p.simpleShortName true false array
  let key := "array;" ++ toString core.levels ++ ";" ++ element.braced
  let label ← labelWith key (π.extractArray array name core.levels element component)
  let rich ← match array.classifier with
    | .ofClass id => π.classType id array.arguments array.nullable
    | .ofTypeParameter _ => pure .unknown
  return ⟨⟨label, name⟩, rich.rich⟩

/-! ## Members -/

/-- Schedules the class that an external member belongs to, which is looked
for as far as `steps` goes. A member of a package belongs to no class. -/
def scheduleOwner : Nat → DeclId → Extract Unit
  | 0, _ => throw .outOfFuel
  | steps + 1, id => do
    let p ← read
    match p.parent? id with
    | some (.decl parent) =>
      if p.isClass parent then schedule parent
      else if p.isFunction parent then scheduleOwner steps parent
      else complain (.externalParent id)
    | some (.package _) => pure ()
    | _ => complain (.externalParent id)

def valueType (p : Program) (id : DeclId) : IrType :=
  match p.kind? id with
  | some (.valueParameter v) => v.type
  | some (.variable v) => v.type
  | some (.field f) => f.type
  | _ => .error (id.render ++ " has no declared type")

/-- The key of a callable, over the host views of its erased types. -/
def callableKey (parent : DeclParent) (name : String) (parameters : List IrType)
    (result : IrType) : Extract String := do
  let p ← read
  let types ← parameters.mapM fun t => return (← π.hostLabel (p.erase t)).braced
  let result ← π.hostLabel (p.erase result)
  let parent ← π.parent parent
  return "callable;" ++ parent.braced ++ "." ++ name ++ "(" ++ ", ".intercalate types ++ ")"
    ++ result.braced

def function (id : DeclId) : Extract Label := do
  let p ← read
  match p.decl? id, p.function? id with
  | some d, some f =>
    let types := f.valueParameters.map (valueType p)
    let label ← labelFor (← π.callableKey d.parent f.name types f.returnType)
    if p.isExternal id then scheduleOwner p.walkLimit id
    return label
  | _, _ =>
    complain (.callTarget id)
    return .placeholder

def describe (kind : Option DeclKind) : String :=
  (kind.map (·.describe)).getD "missing declaration"

def parentStep : DeclParent → Extract Label
  | .file file => fileClassLabel file
  | .package name => packageLabel name
  | .decl id => do
    match (← read).kind? id with
    | some (.class _) => π.classSource id
    | some (.function _) => π.function id
    | other =>
      complain (.declarationParent (describe other))
      return .placeholder

def typeParameterKey? (id : DeclId) : Extract (Option String) := do
  let p ← read
  match p.decl? id, p.typeParameter? id with
  | some d, some t =>
    let parent ← π.parent d.parent
    return some ("typevar;" ++ parent.braced ++ ";" ++ t.name)
  | _, _ => return none

def typeParameter (id : DeclId) : Extract Label := do
  match ← π.typeParameterKey? id with
  | some key => labelFor key
  | none => return .placeholder

/-- The label of a type parameter, where it is mentioned: its declaration
should have made one. -/
def typeParameterUse (id : DeclId) : Extract Label := do
  match ← π.typeParameterKey? id with
  | none =>
    complain (.notTypeParameter id)
    return .placeholder
  | some key =>
    match ← find? key with
    | some label => return label
    | none =>
      complain (.missingTypeParameter key)
      labelFor key

def typeParameterType (id : DeclId) (nullable : Bool) : Extract TypeViews := do
  let name := (((← read).typeParameter? id).map (·.name)).getD id.render
  let host ← π.typeParameterUse id
  let richClass ← namedClass "kotlin" "TypeParam"
  let rich ← richType "type_param" richClass nullable
  return ⟨⟨host, name⟩, ⟨rich.label, if nullable then name ++ "?" else name⟩⟩

/-! ## The step of a type -/

def simpleType (primitives : Bool) (s : SimpleType) : Extract TypeViews := do
  let p ← read
  if s.abbreviation.isSome then
    complain (.aliasIgnored (p.simpleShortName primitives false s))
  match s.classifier with
  | .ofTypeParameter id => π.typeParameterType id s.nullable
  | .ofClass id =>
    match p.fqName? id with
    | none =>
      complain (.typeOfNonClass id)
      return .unknown
    | some name =>
      match Builtins.primitiveInfo? name with
      | some info => π.primitiveType info id s.nullable primitives
      | none =>
        if p.isArray s then π.arrayType s
        else π.classType id s.arguments s.nullable

def typeStep (primitives : Bool) : IrType → Extract TypeViews
  | .simple s => π.simpleType primitives s
  | .error description => do
    complain (.unrecognisedType description)
    return .unknown

end Projection

/-- Projection with so much fuel: each turn of a circle takes one unit. -/
def projection : Nat → Projection
  | 0 =>
    { type := fun _ _ => throw .outOfFuel
      classInstance := fun _ _ => throw .outOfFuel
      parent := fun _ => throw .outOfFuel }
  | fuel + 1 =>
    { type := fun primitives type => (projection fuel).typeStep primitives type
      classInstance := fun id arguments => (projection fuel).classInstanceStep id arguments
      parent := fun parent => (projection fuel).parentStep parent }

/-- More fuel than the nodes of a program can use up: a circle is cut at the
second visit of a class with arguments, or of an array. -/
def Program.fuel (p : Program) : Nat := (p.nodes + 256) * (p.nodes + 256)

end IrFacts
