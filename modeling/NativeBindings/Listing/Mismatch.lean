import NativeBindings.Binary64
import NativeBindings.Declaration
import NativeBindings.Text.Quoted

set_option autoImplicit false
set_option relaxedAutoImplicit false

/-!
What can be wrong with a value that is well formed but not the one a record asks for.
-/

namespace NativeBindings

inductive FoundValue where
  | null
  | bool (value : Bool)
  | integer (value : Int)
  | wideInteger (value : Int) (width : String)
  | float (value : Binary64)
  | text (value : String)
  | sequence
  | map

/-- The words for a found value; the format at hand decides how a float is written. -/
def FoundValue.description (floatText : Binary64 → String) : FoundValue → String
  | null => "null"
  | bool b => "boolean `" ++ (if b then "true" else "false") ++ "`"
  | integer n => "integer `" ++ toString n ++ "`"
  | wideInteger n width => "integer `" ++ toString n ++ "` as " ++ width
  | float x => "floating point `" ++ floatText x ++ "`"
  | text s => "string " ++ Text.quoted s
  | sequence => "sequence"
  | map => "map"

inductive Mismatch where
  | missingField (key : String)
  | duplicateField (key : String)
  | unknownMode (word : String)
  | invalidType (found : FoundValue) (expected : String)
  /-- A list stands for a record and ends before a required field. -/
  | invalidLength (count : Nat) (title : String) (fieldCount : Nat)
  | noDefaultValue
  | noModeWord

def modeChoices : String :=
  String.intercalate ", " (Mode.all.map fun m => "`" ++ m.word ++ "`")

def Mismatch.message (floatText : Binary64 → String) : Mismatch → String
  | missingField key => "missing field `" ++ key ++ "`"
  | duplicateField key => "duplicate field `" ++ key ++ "`"
  | unknownMode word => "unknown variant `" ++ word ++ "`, expected one of " ++ modeChoices
  | invalidType found expected =>
    "invalid type: " ++ found.description floatText ++ ", expected " ++ expected
  | invalidLength count title fieldCount =>
    "invalid length " ++ count.repr ++ ", expected " ++ title ++ " with " ++ fieldCount.repr ++
      " elements"
  | noDefaultValue => "data did not match any variant of untagged enum DefaultValue"
  | noModeWord => "wanted string or table"

end NativeBindings
