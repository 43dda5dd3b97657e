import NativeBindings.Binary64

set_option autoImplicit false
set_option relaxedAutoImplicit false

/-!
TOML values without parts.
-/

namespace NativeBindings.Toml

inductive Scalar where
  | text (value : String)
  | bool (value : Bool)
  | integer (value : Int)
  | float (value : Binary64)
  /-- A number that is out of every range, or whose text is none in spite of its form. -/
  | unreadable
  | date

end NativeBindings.Toml
