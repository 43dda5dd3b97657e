import NativeBindings.NativeType

set_option autoImplicit false
set_option relaxedAutoImplicit false

/-!
Tables of the host types that stand for native types. Where a native type has several entries, the
last one counts.
-/

namespace NativeBindings

inductive EntryKind where
  | builtin
  | enumeration
  | handle
  | array
  | tuple
  deriving DecidableEq

def EntryKind.byValue : EntryKind → Bool
  | builtin => true
  | enumeration => true
  | _ => false

def EntryKind.listed (k : EntryKind) : Bool := k != .builtin

structure TypeEntry where
  native : String
  host : String
  kind : EntryKind
  code : String
  declaration : Option String
  deriving DecidableEq

structure TypeTable where
  entries : List TypeEntry

structure UnmappedType where
  type : String
  function : String
  deriving DecidableEq

def UnmappedType.message (u : UnmappedType) : String :=
  "no host mapping for native type `" ++ u.type ++ "` (used by `" ++ u.function ++
    "`); add it to the type table"

namespace TypeTable

def lastIndex? {α : Type} (p : α → Bool) : List α → Option Nat
  | [] => none
  | x :: rest =>
    match lastIndex? p rest with
    | some i => some (i + 1)
    | none => if p x then some 0 else none

def position? (t : TypeTable) (native : String) : Option Nat :=
  lastIndex? (·.native = native) t.entries

def lookup? (t : TypeTable) (native : String) : Option TypeEntry :=
  t.entries.reverse.find? (·.native = native)

/-- The entry of a type or of what an explicit pointer points to; `function` is named where there
is none. -/
def resolve (t : TypeTable) (type : NativeType) (function : String) :
    Except UnmappedType TypeEntry :=
  match t.lookup? type.pointee.spelling with
  | some e => .ok e
  | none => .error ⟨type.pointee.spelling, function⟩

end TypeTable

end NativeBindings
