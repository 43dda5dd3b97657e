import NativeBindings.NativeType
import NativeBindings.TypeExpr

set_option autoImplicit false
set_option relaxedAutoImplicit false

/-!
The native type that a written type stands for. References are values, and one `at::` or `c10::`
in front of a known name is free.
-/

namespace NativeBindings.NativeType

def knownNames : List (String × NativeType) :=
  [("bool", .primitive .bool), ("int64_t", .primitive .int64), ("double", .primitive .double),
    ("void", .primitive .void), ("ScalarType", .primitive .scalarType),
    ("Tensor", .handle .tensor), ("Scalar", .handle .scalar), ("Storage", .handle .storage),
    ("Device", .handle .device), ("Generator", .handle .generator),
    ("TensorOptions", .handle .tensorOptions), ("TensorList", .handle .tensorList),
    ("IntArrayRef", .handle .intArray), ("IntList", .handle .intArray),
    ("std::string", .handle .string), ("Context", .handle .context),
    ("ConstQuantizerPtr", .handle .constQuantizerPtr)]

def shortName (name : String) : String :=
  match name.toList with
  | 'a' :: 't' :: ':' :: ':' :: rest => String.ofList rest
  | 'c' :: '1' :: '0' :: ':' :: ':' :: rest => String.ofList rest
  | _ => name

def ofName (name : String) : NativeType :=
  (knownNames.lookup (shortName name)).getD (.unknown name)

def arrayOf? : NativeType → Nat → Option NativeType
  | .primitive .bool, n => some (.boolArray n)
  | _, _ => none

def vectorOf? : NativeType → Option NativeType
  | .handle .tensor => some (.handle .tensorList)
  | .primitive .int64 => some (.handle .intArray)
  | _ => none

inductive Argument where
  | type (t : NativeType)
  | number (n : Nat)

def Argument.types? : List Argument → Option (List NativeType)
  | [] => some []
  | .type t :: rest => (Argument.types? rest).map (t :: ·)
  | .number _ :: _ => none

def ofTemplate? (head : String) (args : List Argument) : Option NativeType :=
  if head = "std::array" then
    match args with
    | [.type t, .number n] => arrayOf? t n
    | _ => none
  else if head = "std::vector" then
    match args with
    | [.type t] => vectorOf? t
    | _ => none
  else if head = "std::tuple" then
    (Argument.types? args).map .tuple
  else
    none

mutual

def ofExpr : TypeExpr → NativeType
  | .name n => ofName n
  | .ref t => ofExpr t
  | .ptr t => .ptr (ofExpr t)
  | .app n args =>
    (ofTemplate? n (Argument.ofArgs args)).getD (.unknown (TypeExpr.text (.app n args)))

def Argument.ofArg : TypeArg → Argument
  | .type t => .type (ofExpr t)
  | .number n => .number n

def Argument.ofArgs : List TypeArg → List Argument
  | [] => []
  | a :: rest => Argument.ofArg a :: Argument.ofArgs rest

end

end NativeBindings.NativeType
