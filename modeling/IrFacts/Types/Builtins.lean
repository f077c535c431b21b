/-!
# Builtin classes

Fixed tables: how the builtin classes of the rich type system project onto
host primitives, what the primitive arrays hold, and which host class stands
in for a rich one.
-/

set_option autoImplicit false

namespace IrFacts.Builtins

structure PrimitiveInfo where
  /-- The host primitive, if the class has one. -/
  primitive : Option String
  /-- The host class used where no primitive can stand. -/
  hostPackage : String
  hostClass : String
  /-- The class that the rich type is named after. -/
  richPackage : String
  richClass : String
deriving DecidableEq, Repr

private def info (primitive : Option String) (hostPackage hostClass richClass : String) :
    PrimitiveInfo :=
  { primitive, hostPackage, hostClass, richPackage := "kotlin", richClass }

def primitives : List (String × PrimitiveInfo) :=
  [("kotlin.Byte", info (some "byte") "java.lang" "Byte" "Byte"),
    ("kotlin.Short", info (some "short") "java.lang" "Short" "Short"),
    ("kotlin.Int", info (some "int") "java.lang" "Integer" "Int"),
    ("kotlin.Long", info (some "long") "java.lang" "Long" "Long"),
    ("kotlin.UByte", info (some "byte") "kotlin" "UByte" "UByte"),
    ("kotlin.UShort", info (some "short") "kotlin" "UShort" "UShort"),
    ("kotlin.UInt", info (some "int") "kotlin" "UInt" "UInt"),
    ("kotlin.ULong", info (some "long") "kotlin" "ULong" "ULong"),
    ("kotlin.Double", info (some "double") "java.lang" "Double" "Double"),
    ("kotlin.Float", info (some "float") "java.lang" "Float" "Float"),
    ("kotlin.Boolean", info (some "boolean") "java.lang" "Boolean" "Boolean"),
    ("kotlin.Char", info (some "char") "java.lang" "Character" "Char"),
    ("kotlin.Unit", info (some "void") "java.lang" "Void" "Nothing"),
    ("kotlin.Nothing", info none "java.lang" "Void" "Nothing")]

def primitiveInfo? (fqName : String) : Option PrimitiveInfo := primitives.lookup fqName

/-- The classes whose values are host primitives when they cannot be null. -/
def primitiveClasses : List String :=
  ["kotlin.Boolean", "kotlin.Char", "kotlin.Byte", "kotlin.Short", "kotlin.Int", "kotlin.Long",
    "kotlin.Float", "kotlin.Double"]

def isPrimitiveClass (fqName : String) : Bool := primitiveClasses.contains fqName

def primitiveArrays : List (String × String) :=
  [("kotlin.BooleanArray", "Boolean"), ("kotlin.CharArray", "Char"), ("kotlin.ByteArray", "Byte"),
    ("kotlin.ShortArray", "Short"), ("kotlin.IntArray", "Int"), ("kotlin.LongArray", "Long"),
    ("kotlin.FloatArray", "Float"), ("kotlin.DoubleArray", "Double")]

def arrayElement? (fqName : String) : Option String := primitiveArrays.lookup fqName

def boxedArray : String := "kotlin.Array"

def hostEquivalents : List (String × String) :=
  [("kotlin.Any", "java.lang.Object"),
    ("kotlin.String", "java.lang.String"),
    ("kotlin.CharSequence", "java.lang.CharSequence"),
    ("kotlin.Throwable", "java.lang.Throwable"),
    ("kotlin.Cloneable", "java.lang.Cloneable"),
    ("kotlin.Number", "java.lang.Number"),
    ("kotlin.Comparable", "java.lang.Comparable"),
    ("kotlin.Enum", "java.lang.Enum"),
    ("kotlin.Annotation", "java.lang.annotation.Annotation"),
    ("kotlin.Deprecated", "java.lang.Deprecated"),
    ("kotlin.Byte", "java.lang.Byte"),
    ("kotlin.Short", "java.lang.Short"),
    ("kotlin.Int", "java.lang.Integer"),
    ("kotlin.Long", "java.lang.Long"),
    ("kotlin.Float", "java.lang.Float"),
    ("kotlin.Double", "java.lang.Double"),
    ("kotlin.Boolean", "java.lang.Boolean"),
    ("kotlin.Char", "java.lang.Character"),
    ("kotlin.collections.Iterable", "java.lang.Iterable"),
    ("kotlin.collections.MutableIterable", "java.lang.Iterable"),
    ("kotlin.collections.Iterator", "java.util.Iterator"),
    ("kotlin.collections.MutableIterator", "java.util.Iterator"),
    ("kotlin.collections.Collection", "java.util.Collection"),
    ("kotlin.collections.MutableCollection", "java.util.Collection"),
    ("kotlin.collections.List", "java.util.List"),
    ("kotlin.collections.MutableList", "java.util.List"),
    ("kotlin.collections.Set", "java.util.Set"),
    ("kotlin.collections.MutableSet", "java.util.Set"),
    ("kotlin.collections.ListIterator", "java.util.ListIterator"),
    ("kotlin.collections.MutableListIterator", "java.util.ListIterator"),
    ("kotlin.collections.Map", "java.util.Map"),
    ("kotlin.collections.MutableMap", "java.util.Map"),
    ("kotlin.collections.Map.Entry", "java.util.Map.Entry"),
    ("kotlin.collections.MutableMap.MutableEntry", "java.util.Map.Entry")]

def hostEquivalent? (fqName : String) : Option String := hostEquivalents.lookup fqName

end IrFacts.Builtins
