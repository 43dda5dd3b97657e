import NativeBindings.Listing.Shape
import NativeBindings.Toml.Document

set_option autoImplicit false
set_option relaxedAutoImplicit false

/-!
Decoders for values of a known kind. The entries of a table are taken in the order of their names.
-/

namespace NativeBindings.Toml

abbrev Decoder (α : Type) : Type := Node → Except Fault α

def foundInteger (n : Int) : FoundValue :=
  if fitsSigned 64 n ∨ fitsUnsigned 64 n then .integer n
  else if fitsSigned 128 n then .wideInteger n "i128"
  else .wideInteger n "u128"

def Scalar.found? : Scalar → Option FoundValue
  | text s => some (.text s)
  | bool b => some (.bool b)
  | integer n => some (foundInteger n)
  | float x => some (.float x)
  | unreadable => none
  | date => some .map

def Node.found? : Node → Option FoundValue
  | scalar _ s => s.found?
  | list _ _ => some .sequence
  | tables _ _ => some .sequence
  | table _ _ _ => some .map

def otherKind (expected : String) (node : Node) : Fault :=
  match node.found? with
  | some found => ⟨.mismatch (.invalidType found expected), node.extent⟩
  | none => ⟨.malformed, node.extent⟩

def text : Decoder String
  | .scalar _ (.text s) => .ok s
  | node => .error (otherKind "a string" node)

def bool : Decoder Bool
  | .scalar _ (.bool b) => .ok b
  | node => .error (otherKind "a boolean" node)

def optional {α : Type} (item : Decoder α) : Decoder (Option α) := fun node =>
  (item node).map some

def Node.items? : Node → Option (List Node)
  | list _ items => some items
  | tables _ items => some items
  | _ => none

def list {α : Type} (item : Decoder α) : Decoder (List α) := fun node =>
  match node.items? with
  | some items => items.mapM item
  | none => .error (otherKind "a sequence" node)

def earliest : List (String × Fault) → Option Fault
  | [] => none
  | [p] => some p.2
  | p :: q :: rest => earliest ((if q.1 < p.1 then q else p) :: rest)
termination_by faults => faults.length

mutual

/-- The fault of a node whose content does not matter: an unreadable number, or, unless they may
pass, an integer beyond 64 bits. -/
def Node.refusal? (widePasses : Bool) : Node → Option Fault
  | .scalar extent .unreadable => some ⟨.malformed, extent⟩
  | .scalar extent (.integer n) =>
    match foundInteger n with
    | .wideInteger n width =>
      if widePasses then none
      else some ⟨.mismatch (.invalidType (.wideInteger n width) "any value"), extent⟩
    | _ => none
  | .scalar _ _ => none
  | .list _ items => Node.firstRefusal? widePasses items
  | .tables _ items => Node.firstRefusal? widePasses items
  | .table _ _ entries => earliest (Entry.refusals widePasses entries)

def Node.firstRefusal? (widePasses : Bool) : List Node → Option Fault
  | [] => none
  | node :: rest =>
    match node.refusal? widePasses with
    | some f => some f
    | none => Node.firstRefusal? widePasses rest

def Entry.refusals (widePasses : Bool) : List Entry → List (String × Fault)
  | [] => []
  | .mk key value :: rest =>
    match value.refusal? widePasses with
    | some f => (key.name, f) :: Entry.refusals widePasses rest
    | none => Entry.refusals widePasses rest

end

def insertEntry (e : Entry) : Entries → Entries
  | [] => [e]
  | f :: rest => if e.key.name ≤ f.key.name then e :: f :: rest else f :: insertEntry e rest

def sortedEntries (entries : Entries) : Entries := entries.foldr insertEntry []

section Record

variable {Record : Type} (S : Shape Record) (field : (f : S.Field) → Decoder (S.Value f))

def member (draft : S.Draft) : Entry → Except Fault S.Draft
  | .mk key value =>
    match S.field? key.name with
    | some f => (field f value).map (draft.set f)
    | none =>
      match value.refusal? true with
      | some f => .error f
      | none => .ok draft

def members (draft : S.Draft) : List Entry → Except Fault S.Draft
  | [] => .ok draft
  | e :: rest =>
    match member S field draft e with
    | .error f => .error f
    | .ok draft => members draft rest

def positions (extent : Extent) (count : Nat) (draft : S.Draft) :
    List S.Field → List Node → Except Fault S.Draft
  | [], _ => .ok draft
  | f :: fields, [] =>
    if (S.absent f).isSome then positions extent (count + 1) draft fields []
    else .error ⟨.mismatch (.invalidLength count S.title S.fields.length), extent⟩
  | f :: fields, node :: rest =>
    match field f node with
    | .error e => .error e
    | .ok x => positions extent (count + 1) (draft.set f x) fields rest

def completed (extent : Extent) (draft : S.Draft) : Except Fault Record :=
  match draft.complete with
  | .error reason => .error ⟨.mismatch reason, extent⟩
  | .ok r => .ok r

/-- Decodes a record, written as a table or as the list of its fields. A date is a table without any
known name. -/
def record : Decoder Record := fun node =>
  match node, node.items? with
  | .table extent _ entries, _ =>
    match members S field S.emptyDraft (sortedEntries entries) with
    | .error f => .error f
    | .ok draft => completed S extent draft
  | .scalar extent .date, _ => completed S extent S.emptyDraft
  | node, some items =>
    match positions S field node.extent 0 S.emptyDraft S.fields items with
    | .error f => .error f
    | .ok draft => completed S node.extent draft
  | node, none => .error (otherKind S.title node)

end Record

end NativeBindings.Toml
