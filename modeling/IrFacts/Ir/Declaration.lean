import IrFacts.Ir.Expr

/-!
# Declarations and documents

Declarations stand in one flat table and name each other by their numbers:
a class lists its members, and every declaration names its parent. A document
is that table together with the source files that were compiled.
-/

set_option autoImplicit false

namespace IrFacts

inductive DeclParent where
  | file (id : FileId)
  | decl (id : DeclId)
  | package (name : String)
deriving DecidableEq, Repr, Inhabited

inductive DeclOrigin where
  | source
  | externalStub
  | externalJavaStub
deriving DecidableEq, Repr, Inhabited

def DeclOrigin.isExternal : DeclOrigin → Bool
  | .source => false
  | .externalStub => true
  | .externalJavaStub => true

inductive ClassKind where
  | ordinary
  | interface
  | enumClass
  | enumEntry
  | annotationClass
  | object
deriving DecidableEq, Repr, Inhabited

inductive Modality where
  | final
  | sealed
  | open
  | abstract
deriving DecidableEq, Repr, Inhabited

structure ClassDecl where
  name : String
  kind : ClassKind := .ordinary
  modality : Modality := .final
  isCompanion : Bool := false
  typeParameters : List DeclId := []
  superTypes : List IrType := []
  members : List DeclId := []
  thisReceiver : Option DeclId := none
  /-- The class file that the class was loaded from. -/
  binaryPath : Option String := none

def ClassDecl.isNonCompanionObject (c : ClassDecl) : Bool :=
  c.kind = .object && !c.isCompanion

structure Body where
  span : Span
  statements : List Statement

structure FunctionDecl where
  name : String
  isConstructor : Bool := false
  isPrimary : Bool := false
  typeParameters : List DeclId := []
  valueParameters : List DeclId := []
  dispatchReceiver : Option DeclId := none
  extensionReceiver : Option DeclId := none
  returnType : IrType
  body : Option Body := none

structure PropertyDecl where
  name : String
  isVar : Bool := false
  modality : Modality := .final
  getter : Option DeclId := none
  setter : Option DeclId := none
  backingField : Option DeclId := none

structure FieldDecl where
  name : String
  type : IrType
  isStatic : Bool := false
  initializer : Option Expr := none

structure TypeAliasDecl where
  name : String
  typeParameters : List DeclId := []
  expandedType : IrType

structure InitializerDecl where
  isStatic : Bool := false
  statements : List Statement

structure TypeParameterDecl where
  name : String
  index : UInt64
  superTypes : List IrType := []

structure ValueParameterDecl where
  name : String
  /-- The position among the parameters; a receiver has none and stands at -1. -/
  index : Int32
  type : IrType

structure VariableDecl where
  name : String
  type : IrType
  initializer : Option Expr := none

inductive DeclKind where
  | class (c : ClassDecl)
  | function (f : FunctionDecl)
  | property (p : PropertyDecl)
  | field (f : FieldDecl)
  | enumEntry (name : String)
  | typeAlias (a : TypeAliasDecl)
  | initializer (i : InitializerDecl)
  | typeParameter (p : TypeParameterDecl)
  | valueParameter (p : ValueParameterDecl)
  | variable (v : VariableDecl)

namespace DeclKind

def describe : DeclKind → String
  | .class _ => "class"
  | .function _ => "function"
  | .property _ => "property"
  | .field _ => "field"
  | .enumEntry _ => "enum entry"
  | .typeAlias _ => "type alias"
  | .initializer _ => "anonymous initializer"
  | .typeParameter _ => "type parameter"
  | .valueParameter _ => "value parameter"
  | .variable _ => "variable"

def name? : DeclKind → Option String
  | .class c => some c.name
  | .function f => some f.name
  | .property p => some p.name
  | .field f => some f.name
  | .enumEntry name => some name
  | .typeAlias a => some a.name
  | .initializer _ => none
  | .typeParameter p => some p.name
  | .valueParameter p => some p.name
  | .variable v => some v.name

end DeclKind

structure Declaration where
  parent : DeclParent
  origin : DeclOrigin := .source
  span : Span := .undefined
  kind : DeclKind

structure FileAnnotation where
  annotationClass : DeclId
  arguments : List Expr := []

structure FileEntry where
  path : String
  package : String := ""
  declarations : List DeclId := []
  annotations : List FileAnnotation := []
  lines : LineTable := .single

/-- The file name without its directories, whichever separator they use. -/
def FileEntry.name (f : FileEntry) : String :=
  String.ofList (f.path.toList.reverse.takeWhile fun c => c ≠ '/' && c ≠ '\\').reverse

structure Document where
  files : List FileEntry := []
  declarations : List Declaration := []

/-! ## Size -/

def DeclKind.nodes : DeclKind → Nat
  | .class c => c.members.length + c.typeParameters.length + IrType.nodesOfAll c.superTypes
  | .function f =>
    f.typeParameters.length + f.valueParameters.length + f.returnType.nodes +
      match f.body with
      | some body => Statement.nodesOfAll body.statements
      | none => 0
  | .property _ => 0
  | .field f => f.type.nodes + Expr.nodesOfOption f.initializer
  | .enumEntry _ => 0
  | .typeAlias a => a.expandedType.nodes
  | .initializer i => Statement.nodesOfAll i.statements
  | .typeParameter p => IrType.nodesOfAll p.superTypes
  | .valueParameter p => p.type.nodes
  | .variable v => v.type.nodes + Expr.nodesOfOption v.initializer

end IrFacts
