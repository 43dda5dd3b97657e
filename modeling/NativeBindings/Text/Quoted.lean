import NativeBindings.Text.Combining
import NativeBindings.Text.Unprintable

set_option autoImplicit false
set_option relaxedAutoImplicit false

/-!
Texts in double quotes, with escapes for what would not be seen.
-/

namespace NativeBindings.Text

/-- The escape of a character by its code point, in lower-case hexadecimal digits. -/
def codePointEscape (c : Char) : List Char :=
  '\\' :: 'u' :: '\x7b' :: Nat.toDigits 16 c.toNat ++ ['\x7d']

def quotedChar (c : Char) : List Char :=
  if c = '\x00' then ['\\', '0']
  else if c = '\t' then ['\\', 't']
  else if c = '\r' then ['\\', 'r']
  else if c = '\n' then ['\\', 'n']
  else if c = '"' then ['\\', '"']
  else if c = '\\' then ['\\', '\\']
  else if isDependent c || isUnprintable c then codePointEscape c
  else [c]

def quoted (s : String) : String := "\"" ++ String.ofList (s.toList.flatMap quotedChar) ++ "\""

end NativeBindings.Text
