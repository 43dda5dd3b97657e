set_option autoImplicit false
set_option relaxedAutoImplicit false

/-!
The types that a native function can take and return, and their canonical C++ spelling.
-/

namespace NativeBindings

inductive Primitive where
  | bool
  | int64
  | double
  | void
  | scalarType
  deriving DecidableEq

inductive Handle where
  | tensor
  | scalar
  | storage
  | device
  | generator
  | tensorOptions
  | tensorList
  | intArray
  | string
  | context
  | constQuantizerPtr
  deriving DecidableEq

inductive NativeType where
  | primitive (p : Primitive)
  | handle (h : Handle)
  | boolArray (length : Nat)
  | tuple (items : List NativeType)
  | ptr (target : NativeType)
  /-- A well-formed type of no known kind, in the spelling of its source. -/
  | unknown (spelling : String)

namespace Primitive

def spelling : Primitive → String
  | bool => "bool"
  | int64 => "int64_t"
  | double => "double"
  | void => "void"
  | scalarType => "at::ScalarType"

end Primitive

namespace Handle

def spelling : Handle → String
  | tensor => "at::Tensor"
  | scalar => "at::Scalar"
  | storage => "at::Storage"
  | device => "at::Device"
  | generator => "at::Generator"
  | tensorOptions => "at::TensorOptions"
  | tensorList => "std::vector<at::Tensor>"
  | intArray => "std::vector<int64_t>"
  | string => "std::string"
  | context => "at::Context"
  | constQuantizerPtr => "at::ConstQuantizerPtr"

end Handle

namespace NativeType

mutual

def spelling : NativeType → String
  | primitive p => p.spelling
  | handle h => h.spelling
  | boolArray n => "std::array<bool," ++ n.repr ++ ">"
  | tuple items => "std::tuple<" ++ listSpelling items ++ ">"
  | ptr t => t.spelling ++ "*"
  | unknown s => s

def listSpelling : List NativeType → String
  | [] => ""
  | [t] => t.spelling
  | t :: u :: rest => t.spelling ++ "," ++ listSpelling (u :: rest)

end

@[simp] theorem spelling_primitive (p : Primitive) : (primitive p).spelling = p.spelling := rfl

@[simp] theorem spelling_handle (h : Handle) : (handle h).spelling = h.spelling := rfl

@[simp] theorem spelling_boolArray (n : Nat) :
    (boolArray n).spelling = "std::array<bool," ++ n.repr ++ ">" := rfl

@[simp] theorem spelling_tuple (items : List NativeType) :
    (tuple items).spelling = "std::tuple<" ++ listSpelling items ++ ">" := rfl

@[simp] theorem spelling_ptr (t : NativeType) : (ptr t).spelling = t.spelling ++ "*" := rfl

@[simp] theorem spelling_unknown (s : String) : (unknown s).spelling = s := rfl

theorem listSpelling_cons (t u : NativeType) (rest : List NativeType) :
    listSpelling (t :: u :: rest) = t.spelling ++ "," ++ listSpelling (u :: rest) := rfl

def pointee : NativeType → NativeType
  | ptr t => t
  | t => t

def isPtr : NativeType → Bool
  | ptr _ => true
  | _ => false

end NativeType

end NativeBindings
