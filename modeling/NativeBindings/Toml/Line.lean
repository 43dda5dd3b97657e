import NativeBindings.Toml.Value

set_option autoImplicit false
set_option relaxedAutoImplicit false

/-!
The lines of a TOML text. A text without a line structure is refused as a whole; within lines,
missing or faulty keys and scalars are kept.
-/

namespace NativeBindings.Toml

def endLine? : Bool → List Char → Option (List Char)
  | _, [] => some []
  | inComment, c :: rest =>
    if c = '\n' then some rest
    else if c = '\r' ∧ beforeNewline rest then endLine? inComment rest
    else if inComment then (if isControl c then none else endLine? true rest)
    else if isBlank c then endLine? false rest
    else if c = '#' then endLine? true rest
    else none

/-- Takes what is left of a line that is not looked at, with at most `fuel` steps. Strings in it are
passed over as they are, and a comment still has to be a proper one. -/
def ignoreLine? : Nat → List Char → Option (List Char)
  | 0, _ => none
  | fuel + 1, cs =>
    match readText? cs, cs with
    | some (_, rest), _ => ignoreLine? fuel rest
    | none, [] => some []
    | none, c :: rest =>
      if c = '\n' ∨ c = '\r' then endLine? false (c :: rest)
      else if c = '#' then endLine? true rest
      else if endsKey c then ignoreLine? fuel rest
      else ignoreLine? fuel (rest.dropWhile fun c => !endsKey c)

def closeHeader? : Bool → List Char → Option (List Char)
  | false, ']' :: rest => some rest
  | true, ']' :: ']' :: rest => some rest
  | _, _ => none

/-- Reads a header behind its opening brackets, and the end of its line. One whose key is incomplete
need not be closed. -/
def readHeader? (fuel : Nat) (listed : Bool) (start cs : List Char) :
    Option (Line × List Char) :=
  let key := readPath fuel cs
  match closeHeader? listed key.rest with
  | some rest => (endLine? false rest).map (.header listed ⟨start, rest⟩ key.path, ·)
  | none =>
    if key.complete || key.rest.head? == some ']' then none
    else (ignoreLine? fuel key.rest).map (.header listed ⟨start, key.rest⟩ key.path, ·)

def atMissingValue (cs : List Char) : Bool :=
  (cs.head?.map fun c => c == '#' || c == '\r' || c == '\n').getD true

def readLineValue? (fuel : Nat) (cs : List Char) : Option (WrittenValue × List Char) :=
  if atMissingValue cs then some (.missing cs, cs) else readValue? fuel cs

def readMemberLine? (fuel : Nat) (cs : List Char) : Option (Line × List Char) :=
  let key := readPath fuel cs
  match key.rest with
  | '=' :: afterKey =>
    match readLineValue? fuel (skipBlank afterKey) with
    | some (value, rest) => (endLine? false rest).map (.member key.path value, ·)
    | none => none
  | _ => none

def readLine? (fuel : Nat) (cs : List Char) : Option (Line × List Char) :=
  match cs with
  | '[' :: '[' :: rest => readHeader? fuel true cs rest
  | '[' :: rest => readHeader? fuel false cs rest
  | _ => readMemberLine? fuel cs

/-- Reads at most as many lines as the second number tells, each with at most `fuel` steps. -/
def readLinesWith? (fuel : Nat) : Nat → List Char → Option (List Line)
  | 0, _ => none
  | count + 1, cs =>
    match skipGaps? false cs with
    | none => none
    | some [] => some []
    | some start =>
      match readLine? fuel start with
      | none => none
      | some (line, rest) => (readLinesWith? fuel count rest).map (line :: ·)

def byteOrderMark : Char := '\ufeff'

def dropByteOrderMark (cs : List Char) : List Char :=
  if cs.head? = some byteOrderMark then cs.drop 1 else cs

/-- Reads the lines of a text. Each character opens at most three steps of reading. -/
def readLines? (cs : List Char) : Option (List Line) :=
  readLinesWith? (3 * cs.length + 3) (cs.length + 1) (dropByteOrderMark cs)

end NativeBindings.Toml
