import NativeBindings.Text.Position
import NativeBindings.Toml.Scalar

set_option autoImplicit false
set_option relaxedAutoImplicit false

/-!
The parts of a TOML text as they are written. A key or a scalar that is missing or faulty is kept
without a value, so that its fault is reported in its turn.
-/

namespace NativeBindings.Toml

/-- A part of a text, given by what is left of the text at its beginning and behind its end. -/
structure Extent where
  start : List Char
  stop : List Char

def offsetIn (total : Nat) (place : List Char) : Nat := total - Text.byteCount place

structure WrittenKey where
  name : Option String
  extent : Extent

def WrittenKey.missing (place : List Char) : WrittenKey := ⟨none, ⟨place, place⟩⟩

/-- The keys before the last one, and the last one, of a dotted key. -/
structure WrittenPath where
  parents : List WrittenKey
  last : WrittenKey

def WrittenPath.cons (key : WrittenKey) (path : WrittenPath) : WrittenPath :=
  { path with parents := key :: path.parents }

mutual

inductive WrittenValue where
  | scalar (extent : Extent) (value : Option Scalar)
  | list (extent : Extent) (items : List WrittenValue)
  | table (extent : Extent) (members : List WrittenMember)

inductive WrittenMember where
  | mk (path : WrittenPath) (value : WrittenValue)

end

def WrittenValue.missing (place : List Char) : WrittenValue := .scalar ⟨place, place⟩ none

inductive Line where
  | member (path : WrittenPath) (value : WrittenValue)
  /-- The header of a table, which may be one of several under its name. -/
  | header (listed : Bool) (extent : Extent) (path : WrittenPath)

end NativeBindings.Toml
