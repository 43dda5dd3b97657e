import NativeBindings.Category
import NativeBindings.Text.Quoted

set_option autoImplicit false
set_option relaxedAutoImplicit false

/-!
What the program tells about its progress.
-/

namespace NativeBindings

inductive LogLine where
  | configurationIgnored (path reason : String)
  | collected (category : Category) (count : Nat)
  | skipped (hostName signature : String)
  deriving DecidableEq

namespace LogLine

def level : LogLine → String
  | collected _ _ => " INFO"
  | _ => " WARN"

def terminalControls : List Char := ['\x07', '\x08', '\x0c', '\x1b', '\x7f']

def tamed (c : Char) : List Char :=
  if c ∈ terminalControls then
    ['\\', 'x', Nat.digitChar (c.toNat / 16), Nat.digitChar (c.toNat % 16)]
  else if 0x80 ≤ c.toNat ∧ c.toNat ≤ 0x9f then Text.codePointEscape c
  else [c]

/-- The words of a line. Only free text is written without controls; the values of fields are told
as they are. -/
def message : LogLine → String
  | configurationIgnored path reason =>
    String.ofList
      (("parse `" ++ path ++ "` as TOML failed, using defaults: " ++ reason).toList.flatMap tamed)
  | collected category count =>
    "collected signatures category=" ++ category.word ++ " signatures=" ++ count.repr
  | skipped hostName signature =>
    "host name already emitted in this module, skipping function=" ++ hostName ++
      " signature=" ++ signature

def text (time : String) (l : LogLine) : String := time ++ " " ++ l.level ++ " " ++ l.message

end LogLine

end NativeBindings
