import NativeBindings.Toml.Date
import NativeBindings.Toml.Number

set_option autoImplicit false
set_option relaxedAutoImplicit false

/-!
The values that stand bare in a TOML text: truth values, dates and numbers.
-/

namespace NativeBindings.Toml

def isDateSeparator (c : Char) : Bool := c == '-' || c == ':'

/-- The text has the form of a date or a time: a separator stands behind its first digits. -/
def looksLikeDate (cs : List Char) : Bool :=
  (((Magnitude.ofText cs).body.dropWhile Char.isDigit).head?.map isDateSeparator).getD false

def bare? (cs : List Char) : Option Scalar :=
  if cs = "true".toList then some (.bool true)
  else if cs = "false".toList then some (.bool false)
  else if looksLikeDate cs then (if isDate cs then some .date else none)
  else
    match cs with
    | '0' :: 'x' :: digits => basedInteger? 16 Text.isHexDigit digits
    | '0' :: 'o' :: digits => basedInteger? 8 (fun c => decide ('0' ≤ c) && decide (c ≤ '7')) digits
    | '0' :: 'b' :: digits => basedInteger? 2 (fun c => c == '0' || c == '1') digits
    | _ => decimal? cs <|> wordFloat? cs

end NativeBindings.Toml
