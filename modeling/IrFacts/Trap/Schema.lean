import IrFacts.Trap.Line

/-!
# The schema

The relations of the fact store, one constructor of facts for each. Statements
share the relation `stmts` and expressions the relation `exprs`; a kind code
tells them apart, and the rich type of an expression has a relation of its own.
-/

set_option autoImplicit false

namespace IrFacts.Trap

inductive StmtKind where
  | block
  | ifStmt
  | forStmt
  | enhancedFor
  | whileStmt
  | doStmt
  | tryStmt
  | switchStmt
  | synchronizedStmt
  | returnStmt
  | throwStmt
  | breakStmt
  | continueStmt
  | emptyStmt
  | exprStmt
  | labeled
  | assertStmt
  | localVariableDecl
  | localTypeDecl
  | constructorInvocation
  | superConstructorInvocation
  | caseStmt
  | catchClause
deriving DecidableEq, Repr, Inhabited

namespace StmtKind

def all : List StmtKind :=
  [.block, .ifStmt, .forStmt, .enhancedFor, .whileStmt, .doStmt, .tryStmt, .switchStmt,
    .synchronizedStmt, .returnStmt, .throwStmt, .breakStmt, .continueStmt, .emptyStmt,
    .exprStmt, .labeled, .assertStmt, .localVariableDecl, .localTypeDecl,
    .constructorInvocation, .superConstructorInvocation, .caseStmt, .catchClause]

def code : StmtKind → Nat
  | .block => 0
  | .ifStmt => 1
  | .forStmt => 2
  | .enhancedFor => 3
  | .whileStmt => 4
  | .doStmt => 5
  | .tryStmt => 6
  | .switchStmt => 7
  | .synchronizedStmt => 8
  | .returnStmt => 9
  | .throwStmt => 10
  | .breakStmt => 11
  | .continueStmt => 12
  | .emptyStmt => 13
  | .exprStmt => 14
  | .labeled => 15
  | .assertStmt => 16
  | .localVariableDecl => 17
  | .localTypeDecl => 18
  | .constructorInvocation => 19
  | .superConstructorInvocation => 20
  | .caseStmt => 21
  | .catchClause => 22

def name : StmtKind → String
  | .block => "block"
  | .ifStmt => "ifstmt"
  | .forStmt => "forstmt"
  | .enhancedFor => "enhancedforstmt"
  | .whileStmt => "whilestmt"
  | .doStmt => "dostmt"
  | .tryStmt => "trystmt"
  | .switchStmt => "switchstmt"
  | .synchronizedStmt => "synchronizedstmt"
  | .returnStmt => "returnstmt"
  | .throwStmt => "throwstmt"
  | .breakStmt => "breakstmt"
  | .continueStmt => "continuestmt"
  | .emptyStmt => "emptystmt"
  | .exprStmt => "exprstmt"
  | .labeled => "labeledstmt"
  | .assertStmt => "assertstmt"
  | .localVariableDecl => "localvariabledeclstmt"
  | .localTypeDecl => "localtypedeclstmt"
  | .constructorInvocation => "constructorinvocationstmt"
  | .superConstructorInvocation => "superconstructorinvocationstmt"
  | .caseStmt => "case"
  | .catchClause => "catchclause"

end StmtKind

inductive ExprKind where
  | assign
  | booleanLiteral
  | integerLiteral
  | longLiteral
  | floatLiteral
  | doubleLiteral
  | characterLiteral
  | stringLiteral
  | nullLiteral
  | div
  | rem
  | add
  | sub
  | lt
  | gt
  | le
  | ge
  | eq
  | ne
  | cast
  | newExpr
  | instanceOf
  | localVariableDecl
  | thisAccess
  | varAccess
  | methodAccess
  | typeAccess
  | when
  | getClass
  | notInstanceOf
  | stmtExpr
  | stringTemplate
  | vararg
deriving DecidableEq, Repr, Inhabited

namespace ExprKind

def all : List ExprKind :=
  [.assign, .booleanLiteral, .integerLiteral, .longLiteral, .floatLiteral, .doubleLiteral,
    .characterLiteral, .stringLiteral, .nullLiteral, .div, .rem, .add, .sub, .lt, .gt, .le,
    .ge, .eq, .ne, .cast, .newExpr, .instanceOf, .localVariableDecl, .thisAccess, .varAccess,
    .methodAccess, .typeAccess, .when, .getClass, .notInstanceOf, .stmtExpr, .stringTemplate,
    .vararg]

def code : ExprKind → Nat
  | .assign => 4
  | .booleanLiteral => 16
  | .integerLiteral => 17
  | .longLiteral => 18
  | .floatLiteral => 19
  | .doubleLiteral => 20
  | .characterLiteral => 21
  | .stringLiteral => 22
  | .nullLiteral => 23
  | .div => 25
  | .rem => 26
  | .add => 27
  | .sub => 28
  | .lt => 37
  | .gt => 38
  | .le => 39
  | .ge => 40
  | .eq => 41
  | .ne => 42
  | .cast => 51
  | .newExpr => 52
  | .instanceOf => 55
  | .localVariableDecl => 56
  | .thisAccess => 58
  | .varAccess => 60
  | .methodAccess => 61
  | .typeAccess => 62
  | .when => 75
  | .getClass => 76
  | .notInstanceOf => 81
  | .stmtExpr => 82
  | .stringTemplate => 83
  | .vararg => 87

def name : ExprKind → String
  | .assign => "assignexpr"
  | .booleanLiteral => "booleanliteral"
  | .integerLiteral => "integerliteral"
  | .longLiteral => "longliteral"
  | .floatLiteral => "floatingpointliteral"
  | .doubleLiteral => "doubleliteral"
  | .characterLiteral => "characterliteral"
  | .stringLiteral => "stringliteral"
  | .nullLiteral => "nullliteral"
  | .div => "divexpr"
  | .rem => "remexpr"
  | .add => "addexpr"
  | .sub => "subexpr"
  | .lt => "ltexpr"
  | .gt => "gtexpr"
  | .le => "leexpr"
  | .ge => "geexpr"
  | .eq => "eqexpr"
  | .ne => "neexpr"
  | .cast => "castexpr"
  | .newExpr => "newexpr"
  | .instanceOf => "instanceofexpr"
  | .localVariableDecl => "localvariabledeclexpr"
  | .thisAccess => "thisaccess"
  | .varAccess => "varaccess"
  | .methodAccess => "methodaccess"
  | .typeAccess => "unannotatedtypeaccess"
  | .when => "whenexpr"
  | .getClass => "getclassexpr"
  | .notInstanceOf => "notinstanceofexpr"
  | .stmtExpr => "stmtexpr"
  | .stringTemplate => "stringtemplateexpr"
  | .vararg => "varargexpr"

end ExprKind

inductive WildcardKind where
  | extends
  | super
deriving DecidableEq, Repr

def WildcardKind.code : WildcardKind → Nat
  | .extends => 1
  | .super => 2

def diagnosticSource : String := "trapgen extractor"

namespace Fact

/-! ## Compilation -/

def compilationStarted (id : Label) : Fact :=
  ⟨"compilation_started", [.label id]⟩

def compilationCompilerTimes (id : Label) (cpuSeconds elapsedSeconds : Float) : Fact :=
  ⟨"compilation_compiler_times", [.label id, .float cpuSeconds, .float elapsedSeconds]⟩

def compilationCompilingFiles (id : Label) (index : Nat) (file : Label) : Fact :=
  ⟨"compilation_compiling_files", [.label id, .int index, .label file]⟩

def compilationCompilingFilesCompleted (id : Label) (index : Nat) (result : Int) : Fact :=
  ⟨"compilation_compiling_files_completed", [.label id, .int index, .int result]⟩

def compilationFinished (id : Label) (cpuSeconds elapsedSeconds : Float) : Fact :=
  ⟨"compilation_finished", [.label id, .float cpuSeconds, .float elapsedSeconds]⟩

def diagnostics (id : Label) (generatedBy : String) (severity : Int)
    (tag message fullMessage : String) (location : Label) : Fact :=
  ⟨"diagnostics", [.label id, .text generatedBy, .int severity, .text tag,
    .text message, .text fullMessage, .label location]⟩

/-! ## Files and locations -/

def files (id : Label) (name stem extension : String) (fromSource : Int) : Fact :=
  ⟨"files", [.label id, .text name, .text stem, .text extension, .int fromSource]⟩

def folders (id : Label) (name : String) : Fact :=
  ⟨"folders", [.label id, .text name]⟩

def containerparent (parent child : Label) : Fact :=
  ⟨"containerparent", [.label parent, .label child]⟩

def locationsDefault (id file : Label) (startLine startColumn endLine endColumn : UInt32) : Fact :=
  ⟨"locations_default", [.label id, .label file, .int startLine.toNat,
    .int startColumn.toNat, .int endLine.toNat, .int endColumn.toNat]⟩

def hasLocation (entity location : Label) : Fact :=
  ⟨"hasLocation", [.label entity, .label location]⟩

def cupackage (file package : Label) : Fact :=
  ⟨"cupackage", [.label file, .label package]⟩

/-! ## Types -/

def packages (id : Label) (name : String) : Fact :=
  ⟨"packages", [.label id, .text name]⟩

def classes (id : Label) (name : String) (package source : Label) : Fact :=
  ⟨"classes", [.label id, .text name, .label package, .label source]⟩

def interfaces (id : Label) (name : String) (package source : Label) : Fact :=
  ⟨"interfaces", [.label id, .text name, .label package, .label source]⟩

def isEnumType (cls : Label) : Fact :=
  ⟨"isEnumType", [.label cls]⟩

def primitives (id : Label) (name : String) : Fact :=
  ⟨"primitives", [.label id, .text name]⟩

def ktNullableTypes (id cls : Label) : Fact :=
  ⟨"kt_nullable_types", [.label id, .label cls]⟩

def ktNotnullTypes (id cls : Label) : Fact :=
  ⟨"kt_notnull_types", [.label id, .label cls]⟩

def arrays (id : Label) (name : String) (element : Label)
    (dimensions : Int) (component : Label) : Fact :=
  ⟨"arrays", [.label id, .text name, .label element, .int dimensions, .label component]⟩

def wildcards (id : Label) (name : String) (kind : WildcardKind) : Fact :=
  ⟨"wildcards", [.label id, .text name, .int kind.code]⟩

def typeBounds (id bound : Label) (pos : Int) (parent : Label) : Fact :=
  ⟨"typeBounds", [.label id, .label bound, .int pos, .label parent]⟩

def typeArgs (arg : Label) (pos : Nat) (parent : Label) : Fact :=
  ⟨"typeArgs", [.label arg, .int pos, .label parent]⟩

def isParameterized (id : Label) : Fact :=
  ⟨"isParameterized", [.label id]⟩

def erasure (type source : Label) : Fact :=
  ⟨"erasure", [.label type, .label source]⟩

def extendsReftype (sub super : Label) : Fact :=
  ⟨"extendsReftype", [.label sub, .label super]⟩

def enclInReftype (inner outer : Label) : Fact :=
  ⟨"enclInReftype", [.label inner, .label outer]⟩

def typeVars (id : Label) (name : String) (pos : Nat) (kind : Int) (parent : Label) : Fact :=
  ⟨"typeVars", [.label id, .text name, .int pos, .int kind, .label parent]⟩

def ktTypeAlias (id : Label) (name : String) (richType : Label) : Fact :=
  ⟨"kt_type_alias", [.label id, .text name, .label richType]⟩

/-! ## Members -/

def modifiers (id : Label) (name : String) : Fact :=
  ⟨"modifiers", [.label id, .text name]⟩

def hasModifier (entity modifier : Label) : Fact :=
  ⟨"hasModifier", [.label entity, .label modifier]⟩

def fields (id : Label) (name : String) (type richType parent source : Label) : Fact :=
  ⟨"fields", [.label id, .text name, .label type, .label richType, .label parent, .label source]⟩

def methods (id : Label) (name signature : String) (type richType parent source : Label) : Fact :=
  ⟨"methods", [.label id, .text name, .text signature, .label type,
    .label richType, .label parent, .label source]⟩

def constrs (id : Label) (name signature : String) (type richType parent source : Label) : Fact :=
  ⟨"constrs", [.label id, .text name, .text signature, .label type,
    .label richType, .label parent, .label source]⟩

def ktExtensionFunctions (id type richType : Label) : Fact :=
  ⟨"ktExtensionFunctions", [.label id, .label type, .label richType]⟩

def params (id type richType : Label) (pos : Int) (parent source : Label) : Fact :=
  ⟨"params", [.label id, .label type, .label richType, .int pos, .label parent, .label source]⟩

def paramName (id : Label) (name : String) : Fact :=
  ⟨"paramName", [.label id, .text name]⟩

def classCompanionObject (cls field companion : Label) : Fact :=
  ⟨"class_companion_object", [.label cls, .label field, .label companion]⟩

def classObject (cls field : Label) : Fact :=
  ⟨"class_object", [.label cls, .label field]⟩

def ktProperties (id : Label) (name : String) : Fact :=
  ⟨"ktProperties", [.label id, .text name]⟩

def ktPropertyGetters (property getter : Label) : Fact :=
  ⟨"ktPropertyGetters", [.label property, .label getter]⟩

def ktPropertySetters (property setter : Label) : Fact :=
  ⟨"ktPropertySetters", [.label property, .label setter]⟩

def ktPropertyBackingFields (property field : Label) : Fact :=
  ⟨"ktPropertyBackingFields", [.label property, .label field]⟩

/-! ## Code -/

def stmts (id : Label) (kind : StmtKind) (parent : Label) (index : Int) (callable : Label) : Fact :=
  ⟨"stmts", [.label id, .int kind.code, .label parent, .int index, .label callable]⟩

def exprs (id : Label) (kind : ExprKind) (type parent : Label) (index : Int) : Fact :=
  ⟨"exprs", [.label id, .int kind.code, .label type, .label parent, .int index]⟩

def exprsKotlinType (id richType : Label) : Fact :=
  ⟨"exprsKotlinType", [.label id, .label richType]⟩

def callableEnclosingExpr (expr callable : Label) : Fact :=
  ⟨"callableEnclosingExpr", [.label expr, .label callable]⟩

def callableBinding (caller callee : Label) : Fact :=
  ⟨"callableBinding", [.label caller, .label callee]⟩

def variableBinding (access target : Label) : Fact :=
  ⟨"variableBinding", [.label access, .label target]⟩

def localvars (id : Label) (name : String) (type richType parent : Label) : Fact :=
  ⟨"localvars", [.label id, .text name, .label type, .label richType, .label parent]⟩

def namestrings (name value : String) (parent : Label) : Fact :=
  ⟨"namestrings", [.text name, .text value, .label parent]⟩

def ktBreakContinueTargets (stmt target : Label) : Fact :=
  ⟨"ktBreakContinueTargets", [.label stmt, .label target]⟩

def whenIf (id : Label) : Fact :=
  ⟨"when_if", [.label id]⟩

def whenBranch (id parent : Label) (index : Int) : Fact :=
  ⟨"when_branch", [.label id, .label parent, .int index]⟩

def whenBranchElse (id : Label) : Fact :=
  ⟨"when_branch_else", [.label id]⟩

end Fact

def relations : List String :=
  ["compilation_started", "compilation_compiler_times", "compilation_compiling_files",
    "compilation_compiling_files_completed", "compilation_finished", "diagnostics", "files",
    "folders", "containerparent", "locations_default", "hasLocation", "cupackage", "packages",
    "classes", "interfaces", "isEnumType", "primitives", "kt_nullable_types",
    "kt_notnull_types", "arrays", "wildcards", "typeBounds", "typeArgs", "isParameterized",
    "erasure", "extendsReftype", "enclInReftype", "typeVars", "kt_type_alias", "modifiers",
    "hasModifier", "fields", "methods", "constrs", "ktExtensionFunctions", "params",
    "paramName", "class_companion_object", "class_object", "ktProperties", "ktPropertyGetters",
    "ktPropertySetters", "ktPropertyBackingFields", "stmts", "exprs", "exprsKotlinType",
    "callableEnclosingExpr", "callableBinding", "variableBinding", "localvars", "namestrings",
    "ktBreakContinueTargets", "when_if", "when_branch", "when_branch_else"]

end IrFacts.Trap
