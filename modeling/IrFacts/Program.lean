import IrFacts.Ir.Declaration

/-!
# Programs

A program is a document whose references have been checked: every declaration
that a file, a parent link, a class member or a type parameter names is in the
table. The builtin classes that the document does not declare are added at the
end of the table, as stubs from outside of it.

Parent links may run in a circle. Walks along them take at most one step more
than there are declarations, which no chain without a circle needs.
-/

set_option autoImplicit false

namespace IrFacts

inductive ProgramError where
  | danglingDecl (id : DeclId)
  | missingFile (id : FileId)
deriving DecidableEq, Repr

def ProgramError.message : ProgramError → String
  | .danglingDecl id => "dangling declaration reference " ++ id.render
  | .missingFile id => "invalid IR: reference to missing file " ++ id.render

structure Program where
  files : Array FileEntry
  declarations : Array Declaration
  /-- Classes by qualified name; of several with one name the first counts. -/
  classIndex : List (String × DeclId)
deriving Inhabited

/-- Puts the package in front of a name, unless it is the root package. -/
def qualify (package name : String) : String :=
  if package = "" then name else package ++ "." ++ name

namespace Program

/-! ## Look-up -/

def decl? (p : Program) (id : DeclId) : Option Declaration :=
  p.declarations[id.index.toNat]?

def file? (p : Program) (id : FileId) : Option FileEntry :=
  p.files[id.index.toNat]?

def kind? (p : Program) (id : DeclId) : Option DeclKind := (p.decl? id).map (·.kind)

def parent? (p : Program) (id : DeclId) : Option DeclParent := (p.decl? id).map (·.parent)

def class? (p : Program) (id : DeclId) : Option ClassDecl := do
  match (← p.decl? id).kind with
  | .class c => some c
  | _ => none

def function? (p : Program) (id : DeclId) : Option FunctionDecl := do
  match (← p.decl? id).kind with
  | .function f => some f
  | _ => none

def typeParameter? (p : Program) (id : DeclId) : Option TypeParameterDecl := do
  match (← p.decl? id).kind with
  | .typeParameter t => some t
  | _ => none

def field? (p : Program) (id : DeclId) : Option FieldDecl := do
  match (← p.decl? id).kind with
  | .field f => some f
  | _ => none

def isClass (p : Program) (id : DeclId) : Bool := (p.class? id).isSome

def isFunction (p : Program) (id : DeclId) : Bool := (p.function? id).isSome

def isExternal (p : Program) (id : DeclId) : Bool :=
  match p.decl? id with
  | some d => d.origin.isExternal
  | none => false

def parentClass? (p : Program) (id : DeclId) : Option DeclId := do
  match (← p.decl? id).parent with
  | .decl parent => if p.isClass parent then some parent else none
  | _ => none

def fileIds (p : Program) : List FileId :=
  (List.range p.files.size).map fun i => ⟨UInt32.ofNat i⟩

/-! ## Walks along parent links -/

def walkLimit (p : Program) : Nat := p.declarations.size + 1

def packageWithin (p : Program) : Nat → DeclId → String
  | 0, _ => ""
  | steps + 1, id =>
    match p.decl? id with
    | none => ""
    | some d =>
      match d.parent with
      | .decl parent => p.packageWithin steps parent
      | .file file => match p.file? file with
        | some entry => entry.package
        | none => ""
      | .package name => name

def packageOf (p : Program) (id : DeclId) : String := p.packageWithin p.walkLimit id

def fileWithin (p : Program) : Nat → DeclId → Option FileId
  | 0, _ => none
  | steps + 1, id =>
    match p.decl? id with
    | none => none
    | some d =>
      match d.parent with
      | .decl parent => p.fileWithin steps parent
      | .file file => some file
      | .package _ => none

def fileOf? (p : Program) (id : DeclId) : Option FileId := p.fileWithin p.walkLimit id

/-- The names of a class and of the classes around it, behind `inner`, the
names already met. A class in a function is not nested in another class. -/
def chainWithin (p : Program) : Nat → List String → DeclId → Option (List String)
  | 0, _, _ => none
  | steps + 1, inner, id =>
    match p.decl? id with
    | none => none
    | some d =>
      match d.kind with
      | .class c =>
        match d.parent with
        | .decl parent =>
          if p.isClass parent then p.chainWithin steps (c.name :: inner) parent
          else some (c.name :: inner)
        | _ => some (c.name :: inner)
      | _ => none

/-- The names from the outermost class around a class down to its own. -/
def classChain? (p : Program) (id : DeclId) : Option (List String) :=
  p.chainWithin p.walkLimit [] id

def fqName? (p : Program) (id : DeclId) : Option String :=
  (p.classChain? id).map fun chain => qualify (p.packageOf id) (".".intercalate chain)

def binaryName? (p : Program) (id : DeclId) : Option String :=
  (p.classChain? id).map fun chain => qualify (p.packageOf id) ("$".intercalate chain)

/-! ## The class index -/

def classByFqName? (p : Program) (name : String) : Option DeclId := p.classIndex.lookup name

def builtin? (p : Program) (name : String) : Option DeclId :=
  p.classByFqName? (qualify "kotlin" name)

def indexOf (p : Program) : List (String × DeclId) :=
  (List.range p.declarations.size).filterMap fun i =>
    let id : DeclId := ⟨UInt32.ofNat i⟩
    (p.fqName? id).map fun name => (name, id)

def builtinClasses : List String :=
  ["Any", "Nothing", "Unit", "Byte", "Short", "Int", "Long", "UByte", "UShort", "UInt", "ULong",
    "Float", "Double", "Boolean", "Char", "String", "Array", "ByteArray", "ShortArray",
    "IntArray", "LongArray", "FloatArray", "DoubleArray", "BooleanArray", "CharArray"]

/-- A class that is known by its name only. -/
def builtinStub (name : String) : Declaration :=
  { parent := .package "kotlin", origin := .externalStub, span := .undefined
    kind := .class { name } }

def addBuiltin (p : Program) (name : String) : Program :=
  let qualified := qualify "kotlin" name
  if (p.classByFqName? qualified).isSome then p
  else
    { p with
      declarations := p.declarations.push (builtinStub name)
      classIndex := p.classIndex ++ [(qualified, ⟨UInt32.ofNat p.declarations.size⟩)] }

def addBuiltins (p : Program) : Program := builtinClasses.foldl addBuiltin p

/-! ## Checking -/

variable (count fileCount : Nat)

def checkDecl (id : DeclId) : Except ProgramError Unit :=
  if id.index.toNat < count then .ok () else .error (.danglingDecl id)

def checkDeclaration (d : Declaration) : Except ProgramError Unit := do
  match d.parent with
  | .decl parent => checkDecl count parent
  | .file file => if fileCount ≤ file.index.toNat then throw (.missingFile file)
  | .package _ => pure ()
  match d.kind with
  | .class c =>
    c.members.forM (checkDecl count)
    c.typeParameters.forM (checkDecl count)
  | _ => pure ()

/-- Finds the first reference that leads nowhere. -/
def check (d : Document) : Except ProgramError Unit := do
  d.files.forM fun file => file.declarations.forM (checkDecl d.declarations.length)
  d.declarations.forM (checkDeclaration d.declarations.length d.files.length)

def ofDocument (d : Document) : Except ProgramError Program := do
  check d
  let bare : Program :=
    { files := d.files.toArray, declarations := d.declarations.toArray, classIndex := [] }
  return addBuiltins { bare with classIndex := bare.indexOf }

/-! ## Size -/

def nodes (p : Program) : Nat :=
  p.declarations.foldl (fun n d => n + d.kind.nodes + 1) 0

end Program

end IrFacts
