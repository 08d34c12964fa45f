import BasicSketch.Text.Decimal
import BasicSketch.Text.Letters

set_option autoImplicit false

/-! Types, initial values and array sizes as C++ spells them. -/

namespace BasicSketch.Cpp

def primitives : List (String × String) :=
  [("integer", "int"), ("long", "long"), ("byte", "uint8_t"), ("boolean", "bool"),
   ("single", "float"), ("double", "float"), ("string", "String")]

/-- A type by its name; a name that is no primitive type stands for itself, no name for `int`. -/
def typeName : Option String → String
  | none => "int"
  | some name => (primitives.lookup (Text.lower name)).getD name

def initialValue (type : String) : String :=
  if type == "bool" then "false"
  else if type == "String" then "\"\""
  else "0"

def isObjectName (name : String) : Bool :=
  name.toList.head?.any Char.isUpper && (primitives.lookup (Text.lower name)).isNone

def dimensionSize (bound : String) : String :=
  match Text.readUnsigned? (Text.maxLong - 1) bound with
  | some n => toString (n + 1)
  | none => bound ++ " + 1"

end BasicSketch.Cpp
