import TreeWat.Text.Bytes
set_option autoImplicit false

/-!
# Ty: value types and signatures

The language has two value types, `int` and `boolean`.  `void` is the result of a
function that returns nothing, and `string` is the type of a literal, which only
the built-in `prints` takes.  `invalid` stands for the absence of a type.
-/

namespace TreeWat

/-- A type. -/
inductive Ty where
  | invalid
  | int
  | boolean
  | void
  | string
  deriving DecidableEq, Repr, Inhabited

namespace Ty

/-- The name of a type. -/
def text : Ty → Bytes
  | .invalid => utf8 "invalid"
  | .int => utf8 "int"
  | .boolean => utf8 "boolean"
  | .void => utf8 "void"
  | .string => utf8 "string"

/-- The type of that name; any other name is no type. -/
def ofText (name : Bytes) : Ty :=
  match [int, boolean, void, string].find? (·.text = name) with
  | some t => t
  | none => .invalid

/-- Whether an expression of this type leaves a value on the operand stack. -/
def hasValue : Ty → Bool
  | .int => true
  | .boolean => true
  | _ => false

/-- A parameter list, separated by commas. -/
def listText (ts : List Ty) : Bytes :=
  Bytes.join (utf8 ", ") (ts.map text)

end Ty

/-- The parameter types and the result type of a function. -/
structure Signature where
  params : List Ty
  result : Ty
  deriving DecidableEq, Repr, Inhabited

/-- The signature of a function, with a stand-in for its name. -/
def Signature.text (s : Signature) : Bytes :=
  s.result.text ++ utf8 " f(" ++ Ty.listText s.params ++ utf8 ")"

end TreeWat
