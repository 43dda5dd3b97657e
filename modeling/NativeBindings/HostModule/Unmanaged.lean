import NativeBindings.HostModule

set_option autoImplicit false
set_option relaxedAutoImplicit false

/-!
Modules of plain pointers: every function is a quoted block of C++.
-/

namespace NativeBindings.HostModule

structure Antiquote where
  native : String
  starred : Bool
  dereferenced : Bool
  binder : String
  deriving DecidableEq

namespace Antiquote

def ofParameter (p : StanzaParameter) : Antiquote where
  native := p.entry.native
  starred := p.type.isPtr || !p.entry.kind.byValue
  dereferenced := !p.type.isPtr && !p.entry.kind.byValue
  binder := p.hostName

def text (a : Antiquote) : String :=
  (if a.dereferenced then "*" else "") ++ "$(" ++ a.native ++ (if a.starred then "* " else " ") ++
    a.binder ++ ")"

end Antiquote

inductive ReturnForm where
  | discarded
  | returned
  | copied
  deriving DecidableEq

/-- A quoted block of C++: a call and what is done with its result. -/
structure Block where
  /-- The native type of the result, without the star of a pointer. -/
  native : String
  starred : Bool
  form : ReturnForm
  callee : String
  arguments : List Antiquote
  deriving DecidableEq

namespace Block

def formOf (s : Stanza) : ReturnForm :=
  if s.returnType.isPtr then .returned
  else if s.returnEntry.kind.byValue then
    if s.returnEntry.native = "void" then .discarded else .returned
  else .copied

def ofStanza (s : Stanza) : Block where
  native := s.returnEntry.native
  starred := s.returnType.isPtr || !s.returnEntry.kind.byValue
  form := formOf s
  callee := s.callee
  arguments := s.parameters.map .ofParameter

def call (b : Block) : String :=
  if b.arguments.isEmpty then b.callee ++ "()"
  else
    b.callee ++ "(\n    " ++ String.intercalate "\n  , " (b.arguments.map Antiquote.text) ++ ")"

def statement (b : Block) : String :=
  match b.form with
  | .discarded => b.call ++ ";"
  | .returned => "return " ++ b.call ++ ";"
  | .copied => "return new " ++ b.native ++ "(" ++ b.call ++ ");"

def resultText (b : Block) : String := b.native ++ (if b.starred then "*" else "")

def lines (b : Block) : List String :=
  ["  [C.throwBlock| " ++ b.resultText ++ " \x7b " ++ b.statement, "  \x7d|]"]

end Block

structure UnmanagedDefinition where
  signature : TypeSignature
  binders : List String
  block : Block
  deriving DecidableEq

namespace UnmanagedDefinition

def ofStanza (s : Stanza) : UnmanagedDefinition where
  signature := .ofStanza .unmanaged s
  binders := s.parameters.map (·.hostName)
  block := .ofStanza s

def head (d : UnmanagedDefinition) : String :=
  d.signature.name ++ String.join (d.binders.map (" " ++ ·)) ++ " ="

def lines (d : UnmanagedDefinition) : List String :=
  [""] ++ d.signature.lines ++ [d.head] ++ d.block.lines

def text (d : UnmanagedDefinition) : String := unlines d.lines

end UnmanagedDefinition

structure UnmanagedModule where
  name : String
  typeModule : String
  table : List TableLine
  includes : List String
  definitions : List UnmanagedDefinition

namespace UnmanagedModule

def usedEntries (table : TypeTable) (stanzas : List Stanza) : List TypeEntry :=
  let used := stanzas.flatMap fun s => s.entries.map (·.native)
  table.entries.filter fun e => e.kind.listed && decide (e.native ∈ used)

def commonIncludes : List String := ["<vector>", "<ATen/Tensor.h>", "<ATen/Functions.h>"]

def ofStanzas (spec : ModuleSpec) (table : TypeTable) (stanzas : List Stanza) :
    UnmanagedModule where
  name := spec.name
  typeModule := spec.configuration.typeModuleName
  table := (usedEntries table stanzas).map .ofEntry
  includes := commonIncludes ++ spec.category.extraIncludes
  definitions := stanzas.map .ofStanza

def preambleLines (m : UnmanagedModule) : List String :=
  headerLines m.name ++
    ["import Foreign.C.String", "import Foreign.C.Types", "import Foreign",
      "import " ++ m.typeModule, "",
      "import qualified Language.C.Inline.Cpp as C",
      "import qualified Language.C.Inline.Cpp.Exceptions as C",
      "import qualified Language.C.Inline.Context as C",
      "import qualified Language.C.Types as C",
      "import qualified Data.Map as Map", "",
      "C.context $ C.cppCtx <> mempty \x7b C.ctxTypesTable = " ++ tableLiteral m.table ++ " \x7d",
      ""] ++
    m.includes.map (fun i => "C.include \"" ++ i ++ "\"") ++ [""]

def text (m : UnmanagedModule) : String :=
  unlines m.preambleLines ++ String.join (m.definitions.map UnmanagedDefinition.text)

end UnmanagedModule

end NativeBindings.HostModule
