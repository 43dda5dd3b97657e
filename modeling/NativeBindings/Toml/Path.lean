import NativeBindings.Toml.Text
import NativeBindings.Toml.Written

set_option autoImplicit false
set_option relaxedAutoImplicit false

/-!
Dotted keys. Blanks stand freely around their dots; a key that should stand beside a dot and does
not is kept as a missing one.
-/

namespace NativeBindings.Toml

/-- A character that ends a bare key. A quote behind its first character does not. -/
def endsKey (c : Char) : Bool := c ∈ ".=,[]\x7b\x7d# \t\r\n".toList

def isKeyChar (c : Char) : Bool := c.isAlphanum || c == '-' || c == '_'

def readKey? (cs : List Char) : Option (WrittenKey × List Char) :=
  match readText? cs with
  | some (value, rest) => some (⟨if opensLong cs then none else value, ⟨cs, rest⟩⟩, rest)
  | none =>
    let name := cs.takeWhile fun c => !endsKey c
    let rest := cs.dropWhile fun c => !endsKey c
    if name.isEmpty then none
    else
      let value := if name.all isKeyChar then some (String.ofList name) else none
      some (⟨value, ⟨cs, rest⟩⟩, rest)

/-- A dotted key that was read, and the place behind it and its blanks. -/
structure PathReading where
  path : WrittenPath
  complete : Bool
  rest : List Char

def PathReading.cons (key : WrittenKey) (r : PathReading) : PathReading :=
  { r with path := r.path.cons key }

/-- Goes on with a dotted key behind one of its keys. `again` reads the keys behind a dot. -/
def readDots (again : List Char → PathReading) (key : WrittenKey) : List Char → PathReading
  | '.' :: more => (again (skipBlank more)).cons key
  | cs => ⟨⟨[], key⟩, true, cs⟩

def readPathWith : Nat → List Char → PathReading
  | 0, cs => ⟨⟨[], .missing cs⟩, false, cs⟩
  | fuel + 1, cs =>
    match readKey? cs with
    | some (key, rest) => readDots (readPathWith fuel) key (skipBlank rest)
    | none =>
      if cs.head? == some '.' then readDots (readPathWith fuel) (.missing cs) cs
      else ⟨⟨[], .missing cs⟩, false, cs⟩

def readPath (fuel : Nat) (cs : List Char) : PathReading := readPathWith fuel (skipBlank cs)

end NativeBindings.Toml
