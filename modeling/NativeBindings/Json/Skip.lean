import NativeBindings.Json.Number
import NativeBindings.Json.Text

set_option autoImplicit false
set_option relaxedAutoImplicit false

/-!
The steps through lists and objects, and values whose content does not matter. A value that is
ignored is skipped under looser rules than one that is looked at.
-/

namespace NativeBindings.Json

def isSpace (c : Char) : Bool := c == ' ' || c == '\n' || c == '\t' || c == '\r'

def skipSpace (cs : List Char) : List Char := cs.dropWhile isSpace

def takeWord : List Char → List Char → Except Fault (List Char)
  | [], cs => .ok cs
  | _ :: _, [] => .error (.here .endInValue [])
  | w :: ws, c :: rest =>
    if c = w then takeWord ws rest else .error (.next .expectedWord (c :: rest))

inductive Use where
  | looked
  | ignored
  deriving DecidableEq

def nextItem (use : Use) (first : Bool) (cs : List Char) : Except Fault (Option (List Char)) :=
  match skipSpace cs with
  | [] => .error (.here .endInList [])
  | c :: rest =>
    if c = ']' then .ok none
    else if first then .ok (some (c :: rest))
    else if c = ',' then
      match skipSpace rest with
      | [] => .error (.here .endInValue [])
      | d :: more =>
        if d = ']' ∧ use = .looked then .error (.next .trailingComma (d :: more))
        else .ok (some (d :: more))
    else .error (.next .expectedListSeparator (c :: rest))

/-- Steps behind the opening quote of the next key of an object, if there is one. -/
def nextKey (use : Use) (first : Bool) (cs : List Char) : Except Fault (Option (List Char)) :=
  match skipSpace cs with
  | [] => .error (.here .endInObject [])
  | c :: rest =>
    if c = '\x7d' then .ok none
    else if first then
      if c = '"' then .ok (some rest) else .error (.next .keyNotString (c :: rest))
    else if c = ',' then
      match skipSpace rest with
      | [] => .error (.here (if use = .looked then .endInValue else .endInObject) [])
      | d :: more =>
        if d = '"' then .ok (some more)
        else if d = '\x7d' ∧ use = .looked then .error (.next .trailingComma (d :: more))
        else .error (.next .keyNotString (d :: more))
    else .error (.next .expectedObjectSeparator (c :: rest))

def takeColon (cs : List Char) : Except Fault (List Char) :=
  match skipSpace cs with
  | [] => .error (.here .endInObject [])
  | c :: rest => if c = ':' then .ok rest else .error (.next .expectedColon (c :: rest))

def closeList (cs : List Char) : Except Fault (List Char) :=
  match skipSpace cs with
  | [] => .error (.here .endInList [])
  | c :: rest =>
    if c = ']' then .ok rest
    else if c = ',' then
      if (skipSpace rest).head? = some ']' then .error (.next .trailingComma (skipSpace rest))
      else .error (.next .trailingCharacters (skipSpace rest))
    else .error (.next .trailingCharacters (c :: rest))

def closeObject (cs : List Char) : Except Fault (List Char) :=
  match skipSpace cs with
  | [] => .error (.here .endInObject [])
  | c :: rest =>
    if c = '\x7d' then .ok rest
    else if c = ',' then .error (.next .trailingComma (c :: rest))
    else .error (.next .trailingCharacters (c :: rest))

def listFinish (cs : List Char) : List Char :=
  match skipSpace cs with
  | [] => []
  | c :: rest =>
    if c = ']' then rest else if c = ',' then skipSpace rest else c :: rest

def objectFinish (cs : List Char) : List Char :=
  match skipSpace cs with
  | [] => []
  | c :: rest => if c = '\x7d' then rest else c :: rest

def skipNumberFor (use : Use) (cs : List Char) : Except Fault (List Char) :=
  match use with
  | .looked => (readNumber cs).map Prod.snd
  | .ignored => skipNumber cs

def skipStringFor (use : Use) (cs : List Char) : Except Fault (List Char) :=
  match use with
  | .looked => (readString cs).map Prod.snd
  | .ignored => skipString cs

def tooDeep (use : Use) (depth : Nat) : Bool :=
  match use with
  | .looked => depth ≤ 1
  | .ignored => false

mutual

def skipValueWith (use : Use) : Nat → Nat → List Char → Except Fault (List Char)
  | 0, _, cs => .error (.here .endInValue cs)
  | fuel + 1, depth, cs =>
    match skipSpace cs with
    | [] => .error (.here .endInValue [])
    | c :: rest =>
      if c = 'n' then takeWord ['u', 'l', 'l'] rest
      else if c = 't' then takeWord ['r', 'u', 'e'] rest
      else if c = 'f' then takeWord ['a', 'l', 's', 'e'] rest
      else if c = '"' then skipStringFor use rest
      else if c = '-' ∨ c.isDigit then skipNumberFor use (c :: rest)
      else if c = '[' then
        if tooDeep use depth then .error (.next .tooDeep (c :: rest))
        else skipItemsWith use fuel (depth - 1) true rest
      else if c = '\x7b' then
        if tooDeep use depth then .error (.next .tooDeep (c :: rest))
        else skipMembersWith use fuel (depth - 1) true rest
      else .error (.next .expectedValue (c :: rest))

def skipItemsWith (use : Use) : Nat → Nat → Bool → List Char → Except Fault (List Char)
  | 0, _, _, cs => .error (.here .endInList cs)
  | fuel + 1, depth, first, cs =>
    match nextItem use first cs with
    | .error f => .error f
    | .ok none => closeList cs
    | .ok (some item) =>
      match skipValueWith use fuel depth item with
      | .error f => .error f
      | .ok rest => skipItemsWith use fuel depth false rest

def skipMembersWith (use : Use) : Nat → Nat → Bool → List Char → Except Fault (List Char)
  | 0, _, _, cs => .error (.here .endInObject cs)
  | fuel + 1, depth, first, cs =>
    match nextKey use first cs with
    | .error f => .error f
    | .ok none => closeObject cs
    | .ok (some key) =>
      match skipStringFor use key with
      | .error f => .error f
      | .ok afterKey =>
        match takeColon afterKey with
        | .error f => .error f
        | .ok value =>
          match skipValueWith use fuel depth value with
          | .error f => .error f
          | .ok rest => skipMembersWith use fuel depth false rest

end

/-- Skips a value that may open `depth - 1` more lists and objects inside each other. -/
def skipValue (use : Use) (depth : Nat) (cs : List Char) : Except Fault (List Char) :=
  skipValueWith use (2 * cs.length + 2) depth cs

end NativeBindings.Json
