import IrFacts.Ir.Declaration
import IrFacts.Json.Value

/-!
# Encoding programs

The JSON form in which a part of a program is written: every member of a
record, in the order of its definition and with its default written out. Only
an abbreviation that a type does not have is left out.
-/

set_option autoImplicit false

namespace IrFacts

open Json

namespace Json.Value

def tag (name : String) (content : Value) : Value := .object [(name, content)]

def optional {α : Type} (encode : α → Value) : Option α → Value
  | some value => encode value
  | none => .null

end Json.Value

def DeclId.encode (id : DeclId) : Value := .integer id.index.toNat

def FileId.encode (id : FileId) : Value := .integer id.index.toNat

def LoopId.encode (id : LoopId) : Value := .integer id.index.toNat

def DeclId.encodeList (ids : List DeclId) : Value := .array (ids.map DeclId.encode)

def Span.encode (s : Span) : Value :=
  .object [("start", .integer s.start.toInt), ("end", .integer s.stop.toInt)]

def LineTable.encode (t : LineTable) : Value :=
  .array (t.starts.toList.map fun start => .integer start.toNat)

/-! ## Types -/

def Classifier.encode : Classifier → Value
  | .ofClass id => Value.tag "class" id.encode
  | .ofTypeParameter id => Value.tag "type_parameter" id.encode

def Variance.encode : Variance → Value
  | .invariant => .string "invariant"
  | .covariant => .string "out"
  | .contravariant => .string "in"

mutual

def IrType.encode : IrType → Value
  | .simple s => Value.tag "simple" s.encode
  | .error description => Value.tag "error" (.object [("description", .string description)])

def SimpleType.encode : SimpleType → Value
  | ⟨classifier, nullable, arguments, abbreviation⟩ =>
    .object (("classifier", classifier.encode) :: ("nullable", .bool nullable) ::
      ("arguments", .array (TypeArgument.encodeAll arguments)) ::
      match abbreviation with
      | some id => [("abbreviation", id.encode)]
      | none => [])

def TypeArgument.encode : TypeArgument → Value
  | .star => .string "star"
  | .projection variance type =>
    Value.tag "projection" (.object [("variance", variance.encode), ("ty", type.encode)])

def TypeArgument.encodeAll : List TypeArgument → List Value
  | [] => []
  | a :: rest => a.encode :: TypeArgument.encodeAll rest

end

def IrType.encodeList (types : List IrType) : Value := .array (types.map IrType.encode)

/-! ## Expressions -/

def StatementOrigin.encode : StatementOrigin → Value
  | .plus => .string "PLUS"
  | .minus => .string "MINUS"
  | .div => .string "DIV"
  | .rem => .string "PERC"
  | .eq => .string "EQEQ"
  | .ne => .string "EXCLEQ"
  | .lt => .string "LT"
  | .le => .string "LTEQ"
  | .gt => .string "GT"
  | .ge => .string "GTEQ"
  | .conditional => .string "IF"
  | .other => .string "Other"

def TypeOperator.encode : TypeOperator → Value
  | .cast => .string "CAST"
  | .implicitCast => .string "IMPLICIT_CAST"
  | .implicitNotNull => .string "IMPLICIT_NOTNULL"
  | .implicitCoercionToUnit => .string "IMPLICIT_COERCION_TO_UNIT"
  | .instanceOf => .string "INSTANCEOF"
  | .notInstanceOf => .string "NOT_INSTANCEOF"
  | .other => .string "OTHER"

def ConstValue.encode : ConstValue → Value
  | .int n => Value.tag "int" (.integer n.toInt)
  | .short n => Value.tag "short" (.integer n.toInt)
  | .byte n => Value.tag "byte" (.integer n.toInt)
  | .long n => Value.tag "long" (.integer n.toInt)
  | .float x => Value.tag "float" (.real32 x)
  | .double x => Value.tag "double" (.real x)
  | .boolean b => Value.tag "boolean" (.bool b)
  | .char c => Value.tag "char" (.string (String.singleton c))
  | .string s => Value.tag "string" (.string s)
  | .null => .string "null"

def Jump.encode (j : Jump) : Value :=
  .object [("loop", j.loopId.encode), ("label", Value.optional .string j.label)]

mutual

def Statement.encode : Statement → Value
  | .expr e => Value.tag "expr" e.encode
  | .variable id => Value.tag "variable" id.encode
  | .declaration id => Value.tag "declaration" id.encode

def Expr.encode : Expr → Value
  | ⟨span, type, kind⟩ =>
    .object [("span", span.encode), ("ty", type.encode), ("kind", kind.encode)]

def Call.encode : Call → Value
  | ⟨callee, receiver, typeArguments, values, origin⟩ =>
    .object [("callee", callee.encode), ("dispatch_receiver", Expr.encodeOption receiver),
      ("type_arguments", IrType.encodeList typeArguments),
      ("value_arguments", .array (Expr.encodeOptions values)),
      ("origin", Value.optional StatementOrigin.encode origin)]

def Loop.encode : Loop → Value
  | ⟨id, label, condition, body⟩ =>
    .object [("id", id.encode), ("label", Value.optional .string label),
      ("condition", condition.encode), ("body", Expr.encodeOption body)]

def Catch.encode : Catch → Value
  | ⟨parameter, result⟩ =>
    .object [("parameter", parameter.encode), ("result", result.encode)]

def Branch.encode : Branch → Value
  | ⟨span, condition, result, isElse⟩ =>
    .object [("span", span.encode), ("condition", condition.encode),
      ("result", result.encode), ("is_else", .bool isElse)]

def VarargElement.encode : VarargElement → Value
  | .expr e => Value.tag "expr" e.encode
  | .spread e => Value.tag "spread" e.encode

def ExprKind.encode : ExprKind → Value
  | .delegatingConstructorCall call => Value.tag "delegating_constructor_call" call.encode
  | .constructorCall call => Value.tag "constructor_call" call.encode
  | .enumConstructorCall call => Value.tag "enum_constructor_call" call.encode
  | .call call => Value.tag "call" call.encode
  | .instanceInitializerCall id =>
    Value.tag "instance_initializer_call" (.object [("class", id.encode)])
  | .throwExpr value => Value.tag "throw" (.object [("value", value.encode)])
  | .breakExpr jump => Value.tag "break" jump.encode
  | .continueExpr jump => Value.tag "continue" jump.encode
  | .returnExpr value => Value.tag "return" (.object [("value", value.encode)])
  | .tryExpr result catches finish =>
    Value.tag "try" (.object [("result", result.encode),
      ("catches", .array (Catch.encodeAll catches)), ("finally", Expr.encodeOption finish)])
  | .block statements =>
    Value.tag "block" (.object [("statements", .array (Statement.encodeAll statements))])
  | .whileLoop loop => Value.tag "while" loop.encode
  | .doWhileLoop loop => Value.tag "do_while" loop.encode
  | .stringConcatenation arguments =>
    Value.tag "string_concatenation" (.object [("arguments", .array (Expr.encodeAll arguments))])
  | .const value => Value.tag "const" value.encode
  | .getValue id => Value.tag "get_value" (.object [("symbol", id.encode)])
  | .getField id => Value.tag "get_field" (.object [("field", id.encode)])
  | .getEnumValue id => Value.tag "get_enum_value" (.object [("entry", id.encode)])
  | .setValue id value =>
    Value.tag "set_value" (.object [("symbol", id.encode), ("value", value.encode)])
  | .setField id value =>
    Value.tag "set_field" (.object [("field", id.encode), ("value", value.encode)])
  | .when origin branches =>
    Value.tag "when" (.object [("origin", Value.optional StatementOrigin.encode origin),
      ("branches", .array (Branch.encodeAll branches))])
  | .getClass argument => Value.tag "get_class" (.object [("argument", argument.encode)])
  | .typeOperator operator operand argument =>
    Value.tag "type_operator" (.object [("operator", operator.encode), ("operand", operand.encode),
      ("argument", argument.encode)])
  | .vararg elements =>
    Value.tag "vararg" (.object [("elements", .array (VarargElement.encodeAll elements))])
  | .getObjectValue id => Value.tag "get_object_value" (.object [("class", id.encode)])
  | .unsupported description =>
    Value.tag "unsupported" (.object [("description", .string description)])

def Expr.encodeOption : Option Expr → Value
  | none => .null
  | some e => e.encode

def Expr.encodeOptions : List (Option Expr) → List Value
  | [] => []
  | e :: rest => Expr.encodeOption e :: Expr.encodeOptions rest

def Expr.encodeAll : List Expr → List Value
  | [] => []
  | e :: rest => e.encode :: Expr.encodeAll rest

def Statement.encodeAll : List Statement → List Value
  | [] => []
  | s :: rest => s.encode :: Statement.encodeAll rest

def Catch.encodeAll : List Catch → List Value
  | [] => []
  | c :: rest => c.encode :: Catch.encodeAll rest

def Branch.encodeAll : List Branch → List Value
  | [] => []
  | b :: rest => b.encode :: Branch.encodeAll rest

def VarargElement.encodeAll : List VarargElement → List Value
  | [] => []
  | e :: rest => e.encode :: VarargElement.encodeAll rest

end

/-! ## Declarations -/

def DeclParent.encode : DeclParent → Value
  | .file id => Value.tag "file" id.encode
  | .decl id => Value.tag "decl" id.encode
  | .package name => Value.tag "package" (.string name)

def DeclOrigin.encode : DeclOrigin → Value
  | .source => .string "source"
  | .externalStub => .string "external_stub"
  | .externalJavaStub => .string "external_java_stub"

def ClassKind.encode : ClassKind → Value
  | .ordinary => .string "class"
  | .interface => .string "interface"
  | .enumClass => .string "enum_class"
  | .enumEntry => .string "enum_entry"
  | .annotationClass => .string "annotation_class"
  | .object => .string "object"

def Modality.encode : Modality → Value
  | .final => .string "final"
  | .sealed => .string "sealed"
  | .open => .string "open"
  | .abstract => .string "abstract"

def ClassDecl.encode (c : ClassDecl) : Value :=
  .object [("name", .string c.name), ("kind", c.kind.encode), ("modality", c.modality.encode),
    ("is_companion", .bool c.isCompanion), ("type_parameters", DeclId.encodeList c.typeParameters),
    ("super_types", IrType.encodeList c.superTypes), ("declarations", DeclId.encodeList c.members),
    ("this_receiver", Value.optional DeclId.encode c.thisReceiver),
    ("binary_path", Value.optional .string c.binaryPath)]

def Body.encode (b : Body) : Value :=
  .object [("span", b.span.encode), ("statements", .array (Statement.encodeAll b.statements))]

def FunctionDecl.encode (f : FunctionDecl) : Value :=
  .object [("name", .string f.name), ("is_constructor", .bool f.isConstructor),
    ("is_primary", .bool f.isPrimary), ("type_parameters", DeclId.encodeList f.typeParameters),
    ("value_parameters", DeclId.encodeList f.valueParameters),
    ("dispatch_receiver", Value.optional DeclId.encode f.dispatchReceiver),
    ("extension_receiver", Value.optional DeclId.encode f.extensionReceiver),
    ("return_type", f.returnType.encode), ("body", Value.optional Body.encode f.body)]

def PropertyDecl.encode (p : PropertyDecl) : Value :=
  .object [("name", .string p.name), ("is_var", .bool p.isVar), ("modality", p.modality.encode),
    ("getter", Value.optional DeclId.encode p.getter),
    ("setter", Value.optional DeclId.encode p.setter),
    ("backing_field", Value.optional DeclId.encode p.backingField)]

def FieldDecl.encode (f : FieldDecl) : Value :=
  .object [("name", .string f.name), ("ty", f.type.encode), ("is_static", .bool f.isStatic),
    ("initializer", Expr.encodeOption f.initializer)]

def TypeAliasDecl.encode (a : TypeAliasDecl) : Value :=
  .object [("name", .string a.name), ("type_parameters", DeclId.encodeList a.typeParameters),
    ("expanded_type", a.expandedType.encode)]

def InitializerDecl.encode (i : InitializerDecl) : Value :=
  .object [("is_static", .bool i.isStatic),
    ("statements", .array (Statement.encodeAll i.statements))]

def TypeParameterDecl.encode (p : TypeParameterDecl) : Value :=
  .object [("name", .string p.name), ("index", .integer p.index.toNat),
    ("super_types", IrType.encodeList p.superTypes)]

def ValueParameterDecl.encode (p : ValueParameterDecl) : Value :=
  .object [("name", .string p.name), ("index", .integer p.index.toInt), ("ty", p.type.encode)]

def VariableDecl.encode (v : VariableDecl) : Value :=
  .object [("name", .string v.name), ("ty", v.type.encode),
    ("initializer", Expr.encodeOption v.initializer)]

def DeclKind.encode : DeclKind → Value
  | .class c => Value.tag "class" c.encode
  | .function f => Value.tag "function" f.encode
  | .property p => Value.tag "property" p.encode
  | .field f => Value.tag "field" f.encode
  | .enumEntry name => Value.tag "enum_entry" (.object [("name", .string name)])
  | .typeAlias a => Value.tag "type_alias" a.encode
  | .initializer i => Value.tag "anonymous_initializer" i.encode
  | .typeParameter p => Value.tag "type_parameter" p.encode
  | .valueParameter p => Value.tag "value_parameter" p.encode
  | .variable v => Value.tag "variable" v.encode

def Declaration.encode (d : Declaration) : Value :=
  .object [("parent", d.parent.encode), ("origin", d.origin.encode), ("span", d.span.encode),
    ("kind", d.kind.encode)]

end IrFacts
