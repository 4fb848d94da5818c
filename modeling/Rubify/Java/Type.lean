import Rubify.Text.Capital
import Rubify.Text.Uppercase
import Rubify.Text.Word

/-!
# Java types (§3)

The target language is dynamically typed, so a Java type matters for two things only: the value a
variable holds before anything is assigned to it (`JavaType.defaultValue`), and the constant that
stands for the type where a class is expected (`JavaType.reference`).

`ClassName.ofDotted` tells packages from classes by letter case: the leading segments that do not
begin with a capital are the package, everything from the first capitalised segment on is a
(possibly nested) class. `JavaType.display` is the type as Java writes it.
-/

namespace Rubify

/-- The primitive types. -/
inductive Primitive
  | boolean | char | byte | short | int | long | float | double
  deriving DecidableEq, Repr

namespace Primitive

/-- The keyword of a primitive type. -/
def keyword : Primitive → String
  | boolean => "boolean"
  | char => "char"
  | byte => "byte"
  | short => "short"
  | int => "int"
  | long => "long"
  | float => "float"
  | double => "double"

/-- All primitive types. -/
def all : List Primitive :=
  [boolean, char, byte, short, int, long, float, double]

/-- The primitive type a keyword names. -/
def ofKeyword? (word : String) : Option Primitive :=
  all.find? fun p => p.keyword = word

/-- The zero of the type; a `char` is carried as its code point. -/
def defaultValue : Primitive → String
  | boolean => "false"
  | float | double => "0.0"
  | byte | char | short | int | long => "0"

/-- The class whose values stand for the type. -/
def reference : Primitive → String
  | boolean => "Object"
  | float | double => "Float"
  | byte | char | short | int | long => "Integer"

end Primitive

/-- A class or interface: the segments of its package and its own, possibly nested, names. -/
structure ClassName where
  package : List String
  names : List String
  deriving DecidableEq, Repr

namespace ClassName

/-- Whether a segment is spelled like a class. -/
def isCapitalised (segment : String) : Bool :=
  segment.toList.head?.any Text.uppercase.contains

/-- Splits segments where the first capitalised one begins. Without any, the last segment is the
class. -/
def ofSegments (path : List String) : ClassName :=
  match path.dropWhile (!isCapitalised ·) with
  | [] => ⟨path.dropLast, path.getLast?.toList⟩
  | names => ⟨path.takeWhile (!isCapitalised ·), names⟩

/-- Reads a dotted path such as `java.util.Map.Entry`. -/
def ofDotted (path : String) : ClassName :=
  ofSegments (Text.segments path)

/-- The class `name` of the package `java.lang`. -/
def javaLang (name : String) : ClassName :=
  ⟨["java", "lang"], [name]⟩

/-- Whether the class belongs to the package `java.lang`. -/
def isJavaLang (c : ClassName) : Bool :=
  c.package = ["java", "lang"]

/-- The dotted Java name. -/
def qualified (c : ClassName) : String :=
  ".".intercalate (c.package ++ c.names)

/-- The constant path of the class: package segments capitalised, names kept. Classes of
`java.lang` go by their bare names. -/
def reference (c : ClassName) : String :=
  "::".intercalate ((if c.isJavaLang then [] else c.package.map Text.capitalize) ++ c.names)

end ClassName

/-- The Java types, type arguments erased. -/
inductive JavaType
  | primitive (p : Primitive)
  | named (c : ClassName)
  | array (element : JavaType)
  | void
  deriving DecidableEq, Repr

namespace JavaType

/-- The type `java.lang.Object`. -/
def object : JavaType := named (.javaLang "Object")

/-- The type `java.lang.String`. -/
def string : JavaType := named (.javaLang "String")

/-- The type wrapped in `dims` array dimensions. -/
def arrays : Nat → JavaType → JavaType
  | 0, t => t
  | dims + 1, t => arrays dims (array t)

/-- What a variable of the type holds before anything is assigned to it. -/
def defaultValue : JavaType → String
  | primitive p => p.defaultValue
  | named _ | array _ | void => "nil"

/-- The constant written where a class is expected. -/
def reference : JavaType → String
  | primitive p => p.reference
  | named c => c.reference
  | array _ => "Array"
  | void => "NilClass"

/-- The type as Java writes it. -/
def display : JavaType → String
  | primitive p => p.keyword
  | named c => c.qualified
  | array t => t.display ++ "[]"
  | void => "void"

end JavaType

end Rubify
