import NativeBindings.Toml.Bare
import NativeBindings.Toml.Path

set_option autoImplicit false
set_option relaxedAutoImplicit false

/-!
Values with their parts. Blanks, line ends and comments stand freely between the parts of lists and
tables.
-/

namespace NativeBindings.Toml

def beforeNewline (rest : List Char) : Bool := rest.head? == some '\n'

/-- Skips blanks, line ends and comments; the flag tells whether a comment is open. -/
def skipGaps? : Bool → List Char → Option (List Char)
  | _, [] => some []
  | true, c :: rest =>
    if c = '\n' then skipGaps? false rest
    else if c = '\r' ∧ beforeNewline rest then skipGaps? true rest
    else if isControl c then none
    else skipGaps? true rest
  | false, c :: rest =>
    if isBlank c ∨ c = '\n' ∨ (c = '\r' ∧ beforeNewline rest) then skipGaps? false rest
    else if c = '#' then skipGaps? true rest
    else some (c :: rest)

def endsBare (c : Char) : Bool := c != '.' && endsKey c

def isQuote (c : Char) : Bool := c == '"' || c == '\''

def wordFollows (cs : List Char) : Bool :=
  ((skipBlank cs).head?.map fun c => !(endsKey c || isQuote c)).getD false

/-- Splits off a bare value. As a date and a time may have a blank between them, it goes on behind
blanks as long as another word follows. The flag tells whether a word begins here. -/
def splitBare : Bool → List Char → List Char × List Char
  | _, [] => ([], [])
  | atWord, c :: rest =>
    let goesOn :=
      if isBlank c then wordFollows rest else !(endsBare c || (atWord && isQuote c))
    if goesOn then
      let (bare, after) := splitBare (isBlank c || c == '.') rest
      (c :: bare, after)
    else ([], c :: rest)

def readScalar? (cs : List Char) : Option (WrittenValue × List Char) :=
  match readText? cs with
  | some (value, rest) => some (.scalar ⟨cs, rest⟩ (value.map .text), rest)
  | none =>
    if (cs.head?.map endsBare).getD true then none
    else
      let (bare, rest) := splitBare true cs
      some (.scalar ⟨cs, rest⟩ (bare? bare), rest)

mutual

/-- Reads a value that may open `depth` more lists and tables, with at most `fuel` steps. -/
def readValueWith? : Nat → Nat → List Char → Option (WrittenValue × List Char)
  | 0, _, _ => none
  | fuel + 1, depth, cs =>
    match cs, depth with
    | '[' :: _, 0 => none
    | '\x7b' :: _, 0 => none
    | '[' :: rest, depth + 1 =>
      (readItemsWith? fuel depth rest).map fun p => (.list ⟨cs, p.2⟩ p.1, p.2)
    | '\x7b' :: rest, depth + 1 =>
      (readMembersWith? fuel depth rest).map fun p => (.table ⟨cs, p.2⟩ p.1, p.2)
    | _, _ => readScalar? cs

def readItemsWith? : Nat → Nat → List Char → Option (List WrittenValue × List Char)
  | 0, _, _ => none
  | fuel + 1, depth, cs =>
    match skipGaps? false cs with
    | some (']' :: rest) => some ([], rest)
    | some start =>
      match readValueWith? fuel depth start with
      | none => none
      | some (item, rest) =>
        match skipGaps? false rest with
        | some (']' :: more) => some ([item], more)
        | some (',' :: more) => (readItemsWith? fuel depth more).map fun p => (item :: p.1, p.2)
        | _ => none
    | none => none

/-- Reads a member of a table, with at most `fuel` steps. The table may end before its value. -/
def readMemberWith? : Nat → Nat → List Char → Option (WrittenMember × List Char)
  | 0, _, _ => none
  | fuel + 1, depth, cs =>
    let key := readPath fuel cs
    match skipGaps? false key.rest with
    | some ('\x7d' :: rest) => some (.mk key.path (.missing ('\x7d' :: rest)), '\x7d' :: rest)
    | some ('=' :: afterKey) =>
      match skipGaps? false afterKey with
      | some ('\x7d' :: rest) => some (.mk key.path (.missing ('\x7d' :: rest)), '\x7d' :: rest)
      | some start => (readValueWith? fuel depth start).map fun p => (.mk key.path p.1, p.2)
      | none => none
    | _ => none

def readMembersWith? : Nat → Nat → List Char → Option (List WrittenMember × List Char)
  | 0, _, _ => none
  | fuel + 1, depth, cs =>
    match skipGaps? false cs with
    | some ('\x7d' :: rest) => some ([], rest)
    | some start =>
      match readMemberWith? fuel depth start with
      | none => none
      | some (member, rest) =>
        match skipGaps? false rest with
        | some ('\x7d' :: more) => some ([member], more)
        | some (',' :: more) =>
          (readMembersWith? fuel depth more).map fun p => (member :: p.1, p.2)
        | _ => none
    | none => none

end

def depthLimit : Nat := 80

def readValue? (fuel : Nat) (cs : List Char) : Option (WrittenValue × List Char) :=
  readValueWith? fuel depthLimit cs

end NativeBindings.Toml
