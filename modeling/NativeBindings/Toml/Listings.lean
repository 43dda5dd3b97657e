import NativeBindings.Toml.Decoder

set_option autoImplicit false
set_option relaxedAutoImplicit false

/-!
Specifications in TOML: a document with a list of declarations.
-/

namespace NativeBindings.Toml

/-- Decodes a default value. Integers beyond 64 bits with a sign become floats; lists, tables and
dates are none. -/
def defaultValue : Decoder DefaultValue
  | .scalar _ (.bool b) => .ok (.bool b)
  | .scalar _ (.text s) => .ok (.text s)
  | .scalar _ (.float x) => .ok (.float x)
  | .scalar extent (.integer n) =>
    if fitsSigned 64 n then .ok (.int n)
    else if fitsUnsigned 64 n then .ok (.float (Binary64.ofNat n.toNat))
    else .error (otherKind "any value" (.scalar extent (.integer n)))
  | node =>
    match node.refusal? false with
    | some f => .error f
    | none => .error ⟨.mismatch .noDefaultValue, node.extent⟩

def modeAt (extent : Extent) (word : String) : Except Fault Mode :=
  match Mode.ofWord? word with
  | some m => .ok m
  | none => .error ⟨.mismatch (.unknownMode word), extent⟩

def Node.isEmpty : Node → Bool
  | list _ items => items.isEmpty
  | tables _ items => items.isEmpty
  | table _ _ entries => entries.isEmpty
  | scalar _ _ => false

def mode : Decoder Mode
  | .scalar extent (.text word) => modeAt extent word
  | .table _ _ [.mk key value] =>
    match modeAt key.extent key.name with
    | .error f => .error f
    | .ok m => if value.isEmpty then .ok m else .error ⟨.malformed, value.extent⟩
  | .table extent _ _ => .error ⟨.malformed, extent⟩
  | node => .error ⟨.mismatch .noModeWord, node.extent⟩

def argument : Decoder ListedArgument :=
  record ListedArgument.shape fun
    | .name => text
    | .type => text
    | .defaultValue => optional defaultValue

def returned : Decoder ListedReturn :=
  record ListedReturn.shape fun
    | .name => optional text
    | .type => text

def listing : Decoder Listing :=
  record Listing.shape fun
    | .name => text
    | .overloadName => optional text
    | .arguments => list argument
    | .returns => list returned
    | .mode => mode
    | .methodOf => list text
    | .isFactoryMethod => optional bool

inductive SpecificationField where
  | declarations
  deriving DecidableEq

def specificationShape : Shape (List Listing) where
  Field := SpecificationField
  Value
    | .declarations => List Listing
  title := "struct DeclFile"
  fields := [.declarations]
  key
    | .declarations => "declarations"
  absent
    | .declarations => some []
  assemble value := value .declarations

def specification : Decoder (List Listing) :=
  record specificationShape fun
    | .declarations => list listing

def listings (source : String) : Except Fault (List Listing) :=
  match document source.toList with
  | .error f => .error f
  | .ok root => specification root

end NativeBindings.Toml
