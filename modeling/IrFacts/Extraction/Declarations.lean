import IrFacts.Extraction.Code

/-!
# Declarations

Files, classes, callables, properties and the rest. A class is extracted with
all its members; what initializes its instances is gathered into one method,
`<obinit>`, that a program does not declare.
-/

set_option autoImplicit false

namespace IrFacts

namespace Walk

open Extract

variable (w : Walk)

/-! ## Type parameters and value parameters -/

def typeParameterOwner (name : String) (d : Declaration) : Extract Label := do
  let p ← read
  let unexpected : Extract Label := do
    complainAt (.typeParameterParent name) d.span
    return .placeholder
  match d.parent with
  | .decl parent =>
    if p.isFunction parent then w.function parent
    else if p.isClass parent then w.classSource parent
    else unexpected
  | _ => unexpected

def extractTypeParameter (id : DeclId) : Extract Unit := do
  let p ← read
  match p.decl? id, p.typeParameter? id with
  | some d, some t =>
    let label ← w.typeParameter id
    let owner ← w.typeParameterOwner t.name d
    write (.typeVars label t.name t.index.toNat 0 owner)
    locate label d.span
  | _, _ => pure ()

def extractValueParameter (callable : Label) (index : Nat) (id : DeclId) : Extract Unit := do
  match (← read).decl? id with
  | some ⟨_, _, span, .valueParameter v⟩ =>
    let label ← w.valueParameter id
    let type ← w.type true v.type
    let place ← location span
    write (.params label type.host.label type.rich.label index callable label)
    write (.hasLocation label place)
    write (.paramName label v.name)
  | _ => complain (.notParameter id)

/-! ## Functions -/

/-- The name of a function with the short names of its erased parameters. -/
def signature (p : Program) (name : String) (parameters : List DeclId) : String :=
  let shown := parameters.map fun id => p.shortName (p.erase (Projection.valueType p id)) true
  name ++ "(" ++ ",".intercalate shown ++ ")"

def constructorName (p : Program) (f : FunctionDecl) : String :=
  ((f.returnType.classId?.bind p.class?).map (·.name)).getD f.name

def constructorRow (id : DeclId) (f : FunctionDecl) (parent : Label) : Extract Label := do
  let p ← read
  let type ← w.type true (p.erase f.returnType)
  let label ← w.function id
  let name := constructorName p f
  write (.constrs label name (signature p name f.valueParameters) type.host.label
    type.rich.label parent label)
  return label

def methodRow (id : DeclId) (f : FunctionDecl) (parent : Label) : Extract Label := do
  let p ← read
  let type ← w.type true f.returnType
  let label ← w.function id
  write (.methods label f.name (signature p f.name f.valueParameters) type.host.label
    type.rich.label parent label)
  match f.extensionReceiver with
  | some receiver =>
    let type ← w.type true (Projection.valueType p receiver)
    write (.ktExtensionFunctions label type.host.label type.rich.label)
  | none => pure ()
  return label

/-- The body of a function is a block in its first slot. -/
def body (label : Label) (b : Body) : Extract Unit := do
  let block ← stmtRow label .block b.span (.statement label 0)
  w.statements label block 0 b.statements

def inFunction {α : Type} (id : DeclId) (action : Extract α) : Extract α := do
  let outer := (← get).currentFunction
  modify fun s => { s with currentFunction := some id }
  let result ← action
  modify fun s => { s with currentFunction := outer }
  return result

def extractFunction (parent : Label) (id : DeclId) : Extract Label := do
  let p ← read
  match p.decl? id, p.function? id with
  | some d, some f =>
    inFunction id do
      f.typeParameters.forM w.extractTypeParameter
      let place ← location d.span
      let label ← if f.isConstructor then w.constructorRow id f parent else w.methodRow id f parent
      write (.hasLocation label place)
      match f.body with
      | some b => w.body label b
      | none => pure ()
      f.valueParameters.zipIdx.forM fun (v, index) => w.extractValueParameter label index v
      return label
  | _, _ =>
    complain (.notFunction id)
    return .placeholder

/-! ## Members -/

def extractField (parent : Label) (id : DeclId) : Extract Label := do
  let p ← read
  match p.decl? id, p.field? id with
  | some d, some f =>
    let label ← w.field id
    let type ← w.type true f.type
    write (.fields label f.name type.host.label type.rich.label parent label)
    locate label d.span
    return label
  | _, _ =>
    complain (.notField id)
    return .placeholder

def getter (parent label : Label) (external : Bool) (v : PropertyDecl) (span : Span) :
    Extract Unit := do
  match v.getter with
  | some id => write (.ktPropertyGetters label (← w.extractFunction parent id))
  | none => if v.modality ≠ .final || !external then complainAt (.noGetter v.name) span

def setter (parent label : Label) (external : Bool) (v : PropertyDecl) (span : Span) :
    Extract Unit := do
  match v.setter with
  | some id =>
    if !v.isVar then complainAt (.readOnlySetter v.name) span
    write (.ktPropertySetters label (← w.extractFunction parent id))
  | none => if v.isVar && !external then complainAt (.noSetter v.name) span

def extractProperty (parent : Label) (id : DeclId) : Extract Unit := do
  let p ← read
  match p.decl? id with
  | some ⟨_, _, span, .property v⟩ =>
    let external := p.isExternal id
    let label ← w.property id
    let place ← location span
    write (.ktProperties label v.name)
    write (.hasLocation label place)
    w.getter parent label external v span
    w.setter parent label external v span
    match v.backingField with
    | some field => write (.ktPropertyBackingFields label (← w.extractField parent field))
    | none => pure ()
  | _ => pure ()

def enumClass? (p : Program) (d : Declaration) : Option (DeclId × ClassDecl) :=
  match d.parent with
  | .decl parent => (p.class? parent).map (parent, ·)
  | _ => none

def extractEnumEntry (parent : Label) (id : DeclId) : Extract Unit := do
  let p ← read
  match p.decl? id with
  | none => pure ()
  | some d =>
    match enumClass? p d with
    | none => complainAt .enumEntryParent d.span
    | some (owner, c) =>
      if !c.typeParameters.isEmpty then complainAt .genericEnum d.span
      let label ← w.enumEntry id
      let type ← w.classType owner [] false
      write (.fields label (d.kind.name?.getD "") type.host.label type.rich.label parent label)
      locate label d.span

def extractTypeAlias (id : DeclId) : Extract Unit := do
  match (← read).decl? id with
  | some ⟨_, _, span, .typeAlias a⟩ =>
    if !a.typeParameters.isEmpty then complainAt (.genericAlias a.name) span
    let label ← w.typeAlias id
    let type ← w.type true a.expandedType
    write (.ktTypeAlias label a.name type.rich.label)
    locate label span
  | _ => pure ()

def extractDeclaration (parent : Label) (id : DeclId) : Extract Unit := do
  match (← read).decl? id with
  | none => complain (.noDeclaration id)
  | some d =>
    match d.kind with
    | .class _ => let _ ← w.classDeclaration id
    | .function _ => let _ ← w.extractFunction parent id
    | .initializer _ => pure ()
    | .property _ => w.extractProperty parent id
    | .enumEntry _ => w.extractEnumEntry parent id
    | .typeAlias _ => w.extractTypeAlias id
    | .field _ => let _ ← w.extractField parent id
    | other => complainAt (.unrecognisedDeclaration other.describe) d.span

/-! ## Initialization of instances -/

def initializerRow (obinit : Label) (kind : Trap.ExprKind) (type : IrType) (place parent : Label)
    (index : Int) : Extract Label := do
  let id ← fresh
  let type ← w.type true type
  writeExpr id kind type.host.label type.rich.label parent index
  write (.hasLocation id place)
  write (.callableEnclosingExpr id obinit)
  return id

/-- A statement of `<obinit>` that assigns its initializer to a field, with the
place of the property. -/
def assignField (obinit block : Label) (index : Nat) (id : DeclId) (f : FieldDecl) (value : Expr)
    (span : Span) : Extract Unit := do
  let place ← location span
  let stmt ← fresh
  write (.stmts stmt .exprStmt block index obinit)
  write (.hasLocation stmt place)
  let assign ← w.initializerRow obinit .assign value.type place stmt 0
  let left ← w.initializerRow obinit .varAccess f.type place assign 0
  write (.variableBinding left (← w.field id))
  w.expressionSlot obinit assign 1 value

/-- What a member runs in `<obinit>`, from the slot `index` on, and the next slot
that is free. A statement uses up its slot even when it writes nothing there. -/
def initializeMember (obinit block : Label) (index : Nat) (member : DeclId) : Extract Nat := do
  let p ← read
  match p.decl? member with
  | none => return index
  | some d =>
    match d.kind with
    | .property v =>
      let some id := v.backingField | return index
      let some f := p.field? id | return index
      let some value := f.initializer | return index
      if f.isStatic then return index
      w.assignField obinit block index id f value d.span
      return index + 1
    | .initializer i =>
      if i.isStatic then return index
      i.statements.foldlM (fun index s => do
        w.statement obinit block index s
        return index + 1) index
    | _ => return index

def initializeMembers (obinit block : Label) (members : List DeclId) : Extract Unit := do
  let _ ← members.foldlM (w.initializeMember obinit block) 0

/-- Classes from outside are not initialized here. -/
def extractInitialization (id : DeclId) (d : Declaration) (c : ClassDecl) (parent : Label) :
    Extract Unit := do
  let p ← read
  if p.isExternal id then return
  let unit := p.builtinType "Unit"
  let obinit ← labelFor (← w.callableKey (.decl id) "<obinit>" [] unit)
  let result ← w.type true unit
  let place ← location d.span
  write (.methods obinit "<obinit>" "<obinit>()" result.host.label result.rich.label parent obinit)
  write (.hasLocation obinit place)
  let block ← fresh
  write (.stmts block .block obinit 0 obinit)
  write (.hasLocation block place)
  w.initializeMembers obinit block c.members

/-! ## Classes -/

def instanceField (id : DeclId) (field : Label × String) (parent place : Label) :
    Extract Unit := do
  let (label, name) := field
  let type ← w.classType id [] false
  write (.fields label name type.host.label type.rich.label parent label)
  write (.hasLocation label place)
  addModifiers label ["public", "static", "final"]

def nesting (id : DeclId) (c : ClassDecl) (label place : Label) : Extract Unit := do
  match (← read).parentClass? id with
  | none => pure ()
  | some outer =>
    let outer ← w.classInstance outer []
    write (.enclInReftype label outer.label)
    if c.isCompanion then
      match ← w.companionField? id with
      | none => pure ()
      | some field =>
        w.instanceField id field outer.label place
        write (.classCompanionObject outer.label field.1 label)

def classStep (id : DeclId) : Extract Label := do
  let p ← read
  match p.decl? id, p.class? id with
  | some d, some c =>
    let label ← w.classSource id
    let package ← packageLabel (p.packageOf id)
    Projection.writeClassOrInterface c.kind label c.name package label
    let place ← location d.span
    write (.hasLocation label place)
    w.nesting id c label place
    c.typeParameters.forM w.extractTypeParameter
    c.members.forM (w.extractDeclaration label)
    w.extractInitialization id d c label
    if c.isNonCompanionObject then
      let field ← w.objectField id
      w.instanceField id field label place
      write (.classObject label field.1)
    Projection.classModifiers id label
    w.supertypes id label
    return label
  | _, _ =>
    complain (.notClass id)
    return .placeholder

/-! ## Files -/

def fileClass (file : FileId) (entry : FileEntry) : Extract Label := do
  let label ← fileClassLabel file
  let name := (← read).fileClassName entry
  let place ← wholeFile
  let package ← packageLabel entry.package
  write (.classes label name package label)
  write (.hasLocation label place)
  return label

/-- A source file: its package, its class, and all that stands in it. -/
def extractFile (file : FileId) : Extract Unit := do
  match (← read).file? file with
  | none => complain (.noFile file)
  | some entry =>
    let place ← wholeFile
    let package ← packageLabel entry.package
    let label := (← get).file.target.label
    write (.hasLocation label place)
    write (.cupackage label package)
    if !entry.declarations.isEmpty then
      let parent ← fileClass file entry
      entry.declarations.forM (w.extractDeclaration parent)

end Walk

/-- A walk with so much fuel: each node and each class on the way down takes
one unit. -/
def walk (π : Projection) : Nat → Walk
  | 0 =>
    { π with
      expression := fun _ _ _ => throw .outOfFuel
      classDeclaration := fun _ => throw .outOfFuel }
  | fuel + 1 =>
    { π with
      expression := fun callable slot e => (walk π fuel).expressionStep callable slot e
      classDeclaration := fun id => (walk π fuel).classStep id }

/-- The walk of a program, with more fuel than its nodes can use up. -/
def Program.walk (p : Program) : Walk := IrFacts.walk (projection p.fuel) p.fuel

end IrFacts
