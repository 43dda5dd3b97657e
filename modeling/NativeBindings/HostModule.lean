import NativeBindings.Configuration
import NativeBindings.Stanza

set_option autoImplicit false
set_option relaxedAutoImplicit false

/-!
The parts that all host modules have: their names, host types, type signatures and lines.
-/

namespace NativeBindings

inductive Ownership where
  | unmanaged
  | managed
  deriving DecidableEq

namespace Ownership

def all : List Ownership := [unmanaged, managed]

def word : Ownership → String
  | unmanaged => "Unmanaged"
  | managed => "Managed"

def pointerWord : Ownership → String
  | unmanaged => "Ptr"
  | managed => "ForeignPtr"

end Ownership

/-- Which module is meant: its configuration, category and ownership. -/
structure ModuleSpec where
  configuration : Configuration
  category : Category
  ownership : Ownership

def ModuleSpec.name (m : ModuleSpec) : String :=
  m.configuration.moduleName [m.ownership.word, m.category.moduleName]

namespace HostModule

def unlines (lines : List String) : String := String.join (lines.map (· ++ "\n"))

theorem unlines_cons (x : String) (xs : List String) :
    unlines (x :: xs) = x ++ "\n" ++ unlines xs := by
  simp [unlines]

theorem unlines_append (xs ys : List String) : unlines (xs ++ ys) = unlines xs ++ unlines ys := by
  simp [unlines]

def parenthesised (s : String) : String :=
  if ' ' ∈ s.toList then "(" ++ s ++ ")" else s

inductive HostType where
  | bare (host : String)
  | pointer (owner : Ownership) (target : String)
  deriving DecidableEq

def HostType.text : HostType → String
  | bare host => host
  | pointer owner target => owner.pointerWord ++ " " ++ parenthesised target

/-- The host type of a native one; what is not handed over by value is behind a pointer. -/
def hostType (owner : Ownership) (type : NativeType) (entry : TypeEntry) : HostType :=
  if entry.kind.byValue && !type.isPtr then .bare entry.host else .pointer owner entry.host

structure TypeSignature where
  name : String
  parameters : List HostType
  result : HostType
  deriving DecidableEq

namespace TypeSignature

def ofStanza (owner : Ownership) (s : Stanza) : TypeSignature where
  name := s.hostName
  parameters := s.parameters.map fun p => hostType owner p.type p.entry
  result := hostType owner s.returnType s.returnEntry

def types (t : TypeSignature) : List String :=
  t.parameters.map HostType.text ++ ["IO " ++ parenthesised t.result.text]

def typeLines : List String → List String
  | [] => []
  | t :: rest => ("  :: " ++ t) :: rest.map ("  -> " ++ ·)

def lines (t : TypeSignature) : List String := t.name :: typeLines t.types

end TypeSignature

structure TableLine where
  native : String
  host : String
  deriving DecidableEq

def TableLine.ofEntry (e : TypeEntry) : TableLine := ⟨e.native, e.host⟩

def TableLine.text (l : TableLine) : String :=
  "(C.TypeName \"" ++ l.native ++ "\", [t|" ++ l.host ++ "|])"

def tableLiteral : List TableLine → String
  | [] => "Map.fromList []"
  | l :: rest =>
    "Map.fromList\n  [ " ++ l.text ++ String.join (rest.map fun l => "\n  , " ++ l.text) ++ "\n  ]"

def extensions : List String :=
  ["DataKinds", "PolyKinds", "TemplateHaskell", "QuasiQuotes", "ScopedTypeVariables",
    "OverloadedStrings"]

def extensionLine (extension : String) : String :=
  "\x7b-# LANGUAGE " ++ extension ++ " #-\x7d"

def headerLines (name : String) : List String :=
  ["-- generated by aten-ffigen; do not edit"] ++ extensions.map extensionLine ++
    ["", "module " ++ name ++ " where", ""]

end HostModule

end NativeBindings
