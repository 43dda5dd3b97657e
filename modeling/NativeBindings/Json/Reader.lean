import NativeBindings.Json.Skip
import NativeBindings.Listing.Shape

set_option autoImplicit false
set_option relaxedAutoImplicit false

/-!
Readers for values of a known kind. A value of another kind is reported behind it if it is a
scalar, and in front of it if it is a list or an object.
-/

namespace NativeBindings.Json

abbrev Reader (α : Type) : Type := List Char → Except Fault (α × List Char)

def mismatchAt (found : FoundValue) (expected : String) (rest : List Char) : Fault :=
  .here (.mismatch (.invalidType found expected)) rest

def Numeral.found : Numeral → FoundValue
  | natural n => .integer n
  | negative n => .integer (-n)
  | float x => .float x

/-- The fault of a value that is not of the expected kind, or a fault inside it. -/
def otherKind (expected : String) (cs : List Char) : Fault :=
  match cs with
  | [] => .here .endInValue []
  | c :: rest =>
    let afterWord (word : List Char) (found : FoundValue) : Fault :=
      match takeWord word rest with
      | .error f => f
      | .ok after => mismatchAt found expected after
    if c = 'n' then afterWord ['u', 'l', 'l'] .null
    else if c = 't' then afterWord ['r', 'u', 'e'] (.bool true)
    else if c = 'f' then afterWord ['a', 'l', 's', 'e'] (.bool false)
    else if c = '-' ∨ c.isDigit then
      match readNumber (c :: rest) with
      | .error f => f
      | .ok (n, after) => mismatchAt n.found expected after
    else if c = '"' then
      match readString rest with
      | .error f => f
      | .ok (s, after) => mismatchAt (.text (String.ofList s)) expected after
    else if c = '[' then mismatchAt .sequence expected (c :: rest)
    else if c = '\x7b' then mismatchAt .map expected (c :: rest)
    else .next .expectedValue (c :: rest)

def textOf (expected : String) : Reader String := fun cs =>
  match skipSpace cs with
  | '"' :: rest => (readString rest).map fun p => (String.ofList p.1, p.2)
  | other => .error (otherKind expected other)

def text : Reader String := textOf "a string"

def bool : Reader Bool := fun cs =>
  match skipSpace cs with
  | 't' :: rest => (takeWord ['r', 'u', 'e'] rest).map (true, ·)
  | 'f' :: rest => (takeWord ['a', 'l', 's', 'e'] rest).map (false, ·)
  | other => .error (otherKind "a boolean" other)

def null : Reader Unit := fun cs =>
  match skipSpace cs with
  | 'n' :: rest => (takeWord ['u', 'l', 'l'] rest).map ((), ·)
  | other => .error (otherKind "unit" other)

def optional {α : Type} (item : Reader α) : Reader (Option α) := fun cs =>
  match skipSpace cs with
  | 'n' :: rest => (takeWord ['u', 'l', 'l'] rest).map (none, ·)
  | other => (item other).map fun p => (some p.1, p.2)

def itemsWith {α : Type} (item : Reader α) : Nat → Bool → Reader (List α)
  | 0, _, cs => .error (.here .endInList cs)
  | fuel + 1, first, cs =>
    match nextItem .looked first cs with
    | .error f => .error f
    | .ok none => .ok ([], cs)
    | .ok (some start) =>
      match item start with
      | .error f => .error f
      | .ok (x, rest) => (itemsWith item fuel false rest).map fun p => (x :: p.1, p.2)

def inList {α : Type} (body : Reader α) : Reader α := fun cs =>
  match body cs with
  | .error f => .error (f.settle listFinish)
  | .ok (x, rest) => (closeList rest).map (x, ·)

def inObject {α : Type} (body : Reader α) : Reader α := fun cs =>
  match body cs with
  | .error f => .error (f.settle objectFinish)
  | .ok (x, rest) => (closeObject rest).map (x, ·)

def list {α : Type} (item : Reader α) : Reader (List α) := fun cs =>
  match skipSpace cs with
  | '[' :: rest => inList (itemsWith item (rest.length + 1) true) rest
  | other => .error (otherKind "a sequence" other)

section Record

variable {Record : Type} (S : Shape Record) (field : (f : S.Field) → Reader (S.Value f))

def member (draft : S.Draft) (key : String) : Reader S.Draft := fun cs =>
  match S.field? key with
  | none =>
    match takeColon cs with
    | .error f => .error f
    | .ok rest => (skipValue .ignored 0 rest).map (draft, ·)
  | some f =>
    if (draft f).isSome then .error (.enclosing (.duplicateField key) cs)
    else
      match takeColon cs with
      | .error f => .error f
      | .ok rest => (field f rest).map fun p => (draft.set f p.1, p.2)

def membersWith : Nat → Bool → S.Draft → Reader S.Draft
  | 0, _, _, cs => .error (.here .endInObject cs)
  | fuel + 1, first, draft, cs =>
    match nextKey .looked first cs with
    | .error f => .error f
    | .ok none => .ok (draft, cs)
    | .ok (some start) =>
      match readString start with
      | .error f => .error f
      | .ok (key, rest) =>
        match member S field draft (String.ofList key) rest with
        | .error f => .error f
        | .ok (next, rest) => membersWith fuel false next rest

def positions (count : Nat) (first : Bool) (draft : S.Draft) : List S.Field → Reader S.Draft
  | [], cs => .ok (draft, cs)
  | f :: fields, cs =>
    match nextItem .looked first cs with
    | .error e => .error e
    | .ok none =>
      if (S.absent f).isSome then positions (count + 1) first draft fields cs
      else .error (.enclosing (.invalidLength count S.title S.fields.length) cs)
    | .ok (some start) =>
      match field f start with
      | .error e => .error e
      | .ok (x, rest) => positions (count + 1) false (draft.set f x) fields rest

def completed (body : Reader S.Draft) : Reader Record := fun cs =>
  match body cs with
  | .error f => .error f
  | .ok (draft, rest) =>
    match draft.complete with
    | .error reason => .error (.enclosing reason rest)
    | .ok r => .ok (r, rest)

def record : Reader Record := fun cs =>
  match skipSpace cs with
  | '[' :: rest => inList (completed S (positions S field 0 true S.emptyDraft S.fields)) rest
  | '\x7b' :: rest =>
    inObject (completed S (membersWith S field (rest.length + 1) true S.emptyDraft)) rest
  | other => .error (otherKind S.title other)

end Record

end NativeBindings.Json
