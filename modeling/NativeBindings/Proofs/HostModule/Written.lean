import NativeBindings.HostModule.Types
import NativeBindings.Proofs.HostModule.Rendering

set_option autoImplicit false
set_option relaxedAutoImplicit false

/-!
The parts of host modules as they stand in a file. Their texts are written out, line ends and all,
apart from the printers; every module is shown to be printed in these forms.
-/

namespace NativeBindings

open HostModule

namespace Written

def lines : List String → String
  | [] => ""
  | l :: rest => l ++ "\n" ++ lines rest

def header (name : String) : String :=
  lines ["-- generated by aten-ffigen; do not edit",
    "\x7b-# LANGUAGE DataKinds #-\x7d",
    "\x7b-# LANGUAGE PolyKinds #-\x7d",
    "\x7b-# LANGUAGE TemplateHaskell #-\x7d",
    "\x7b-# LANGUAGE QuasiQuotes #-\x7d",
    "\x7b-# LANGUAGE ScopedTypeVariables #-\x7d",
    "\x7b-# LANGUAGE OverloadedStrings #-\x7d",
    "",
    "module " ++ name ++ " where",
    ""]

/-- A type signature with a line for each type, the result last. -/
def typeSignature (name : String) (types : List String) : String :=
  name ++ "\n  :: " ++ String.intercalate "\n  -> " types ++ "\n"

/-- A function of plain pointers: its type signature, its head and a quoted block. -/
def unmanagedFunction (name : String) (types binders : List String)
    (nativeResult statement : String) : String :=
  "\n" ++ typeSignature name types ++ (name ++ String.join (binders.map (" " ++ ·)) ++ " =\n") ++
    ("  [C.throwBlock| " ++ nativeResult ++ " \x7b " ++ statement ++ "\n  \x7d|]\n")

/-- A function that passes its arguments on to the one of the same name. -/
def managedFunction (name : String) (types : List String) (arity : Nat) : String :=
  "\n" ++ typeSignature name types ++
    (name ++ " = cast" ++ arity.repr ++ " Unmanaged." ++ name ++ "\n")

/-- A host type that another word is applied to: in parentheses if it has several words. -/
def operand (host : String) : String := if ' ' ∈ host.toList then "(" ++ host ++ ")" else host

def tableItem (e : TypeEntry) : String :=
  "(C.TypeName \"" ++ e.native ++ "\", [t|" ++ e.host ++ "|])"

/-- A type table with an item on each line. -/
def table : List TypeEntry → String
  | [] => "Map.fromList []"
  | e :: rest =>
    "Map.fromList\n  [ " ++ String.intercalate "\n  , " ((e :: rest).map tableItem) ++ "\n  ]"

/-- A module of plain pointers before its functions. -/
def unmanagedPreamble (name typeModule : String) (listed : List TypeEntry)
    (includes : List String) : String :=
  header name ++
    lines ["import Foreign.C.String",
      "import Foreign.C.Types",
      "import Foreign",
      "import " ++ typeModule,
      "",
      "import qualified Language.C.Inline.Cpp as C",
      "import qualified Language.C.Inline.Cpp.Exceptions as C",
      "import qualified Language.C.Inline.Context as C",
      "import qualified Language.C.Types as C",
      "import qualified Data.Map as Map",
      "",
      "C.context $ C.cppCtx <> mempty \x7b C.ctxTypesTable = " ++ table listed ++ " \x7d",
      ""] ++
    lines (includes.map fun i => "C.include \"" ++ i ++ "\"") ++ "\n"

/-- A module of pointers that the host frees, before its functions. -/
def managedPreamble (name typeModule castModule objectsModule unmanagedModule : String) : String :=
  header name ++
    lines ["import Foreign.C.String",
      "import Foreign.C.Types",
      "import Foreign",
      "import " ++ typeModule,
      "import " ++ castModule,
      "import " ++ objectsModule,
      "import qualified " ++ unmanagedModule ++ " as Unmanaged",
      ""]

def typeModule (name : String) (declarations : List String) (listed : List TypeEntry) : String :=
  header name ++
    lines ["import Foreign.C.Types",
      "import Data.Int (Int8, Int64)",
      "import qualified Data.Map as Map",
      "import qualified Language.C.Inline.Context as C",
      "import qualified Language.C.Types as C",
      "",
      "data StdVector a",
      "data StdArray a",
      "data StdTuple a",
      ""] ++
    lines declarations ++
    lines ["", "typeTable :: C.TypesTable", "typeTable = " ++ table listed]

/-- A text names the module at its head. -/
def HasHeader (name text : String) : Prop := ∃ body, text = header name ++ body

theorem HasHeader.unique {name other text : String} (h : HasHeader name text)
    (h' : HasHeader other text) (hname : ' ' ∉ name.toList) (hother : ' ' ∉ other.toList) :
    name = other := by
  obtain ⟨body, rfl⟩ := h
  obtain ⟨body', hsame⟩ := h'
  have htexts := congrArg String.toList hsame
  simp only [header, lines, String.toList_append, List.append_assoc, List.append_cancel_left_eq]
    at htexts
  have hwords := congrArg (List.takeWhile (· ≠ ' ')) htexts
  have hblank : " where".toList = ' ' :: "where".toList := rfl
  have hkept : ∀ word : String, ' ' ∉ word.toList → ∀ c ∈ word.toList, decide (c ≠ ' ') = true :=
    fun word hword c hc => decide_eq_true fun heq => hword (heq ▸ hc)
  rw [hblank, List.takeWhile_append_of_pos (hkept name hname),
    List.takeWhile_append_of_pos (hkept other hother), List.cons_append, List.cons_append,
    List.takeWhile_cons_of_neg (by decide), List.takeWhile_cons_of_neg (by decide),
    List.append_nil, List.append_nil] at hwords
  exact String.toList_inj.mp hwords

end Written

/-- A type of a function on the host's side, before a word for pointers is chosen. -/
inductive HostShape where
  | value (host : String)
  | pointer (host : String)

namespace HostShape

/-- Only what is handed over by value and is no explicit pointer is not behind one. -/
def ofEntry (type : NativeType) (e : TypeEntry) : HostShape :=
  if e.kind.byValue = true ∧ type.isPtr = false then .value e.host else .pointer e.host

def parameter (word : String) : HostShape → String
  | value host => host
  | pointer host => word ++ " " ++ Written.operand host

def result (word : String) : HostShape → String
  | value host => "IO " ++ Written.operand host
  | pointer host => "IO (" ++ word ++ " " ++ Written.operand host ++ ")"

end HostShape

namespace Stanza

def hostTypes (word : String) (s : Stanza) : List String :=
  s.parameters.map (fun p => (HostShape.ofEntry p.type p.entry).parameter word) ++
    [(HostShape.ofEntry s.returnType s.returnEntry).result word]

def binders (s : Stanza) : List String := s.parameters.map (·.hostName)

end Stanza

structure WrittenArgument where
  /-- The object behind the variable is passed. -/
  dereferenced : Bool
  type : String
  variableName : String

def WrittenArgument.text (a : WrittenArgument) : String :=
  (if a.dereferenced then "*" else "") ++ "$(" ++ a.type ++ " " ++ a.variableName ++ ")"

/-- The parts of a function of plain pointers, as they are written. -/
structure WrittenStanza where
  name : String
  parameterTypes : List String
  resultType : String
  binders : List String
  callee : String
  arguments : List WrittenArgument
  nativeResult : String
  statement : String

def Written.call (callee : String) (arguments : List WrittenArgument) : String :=
  if arguments.isEmpty then callee ++ "()"
  else
    callee ++ "(\n    " ++ String.intercalate "\n  , " (arguments.map WrittenArgument.text) ++ ")"

namespace WrittenStanza

def call (w : WrittenStanza) : String := Written.call w.callee w.arguments

def text (w : WrittenStanza) : String :=
  Written.unmanagedFunction w.name (w.parameterTypes ++ [w.resultType]) w.binders w.nativeResult
    w.statement

end WrittenStanza

/-- The argument that a parameter is written as. -/
def WrittenArgument.ofParameter (p : StanzaParameter) : WrittenArgument where
  dereferenced := !p.type.isPtr && !p.entry.kind.byValue
  type := p.entry.native ++ if p.type.isPtr || !p.entry.kind.byValue then "*" else ""
  variableName := p.hostName

namespace Stanza

def statement (s : Stanza) : String :=
  let call := Written.call s.callee (s.parameters.map .ofParameter)
  if s.returnType.isPtr then "return " ++ call ++ ";"
  else if !s.returnEntry.kind.byValue then
    "return new " ++ s.returnEntry.native ++ "(" ++ call ++ ");"
  else if s.returnEntry.native = "void" then call ++ ";"
  else "return " ++ call ++ ";"

/-- The parts of a function, as they are written. -/
def written (s : Stanza) : WrittenStanza where
  name := s.hostName
  parameterTypes := s.parameters.map fun p => (HostShape.ofEntry p.type p.entry).parameter "Ptr"
  resultType := (HostShape.ofEntry s.returnType s.returnEntry).result "Ptr"
  binders := s.binders
  callee := s.callee
  arguments := s.parameters.map .ofParameter
  nativeResult := s.returnEntry.native ++
    if s.returnType.isPtr || !s.returnEntry.kind.byValue then "*" else ""
  statement := s.statement

end Stanza

namespace HostModule

private theorem unlines_eq_lines (ls : List String) : unlines ls = Written.lines ls := by
  induction ls with
  | nil => rfl
  | cons l rest ih => rw [unlines_cons, Written.lines, ih]

private theorem unlines_headerLines (name : String) :
    unlines (headerLines name) = Written.header name :=
  unlines_eq_lines (headerLines name)

private theorem parenthesised_eq_operand (host : String) :
    parenthesised host = Written.operand host := rfl

private theorem lines_typeLines_cons (lead first : String) (rest : List String) :
    lead ++ first ++ "\n" ++ Written.lines (rest.map ("  -> " ++ ·)) =
      lead ++ String.intercalate "\n  -> " (first :: rest) ++ "\n" := by
  induction rest generalizing lead first with
  | nil => simp [Written.lines]
  | cons next rest ih =>
    have hlead : "\n  -> " = "\n" ++ "  -> " := rfl
    have hnext := ih (lead ++ first ++ "\n  -> ") next
    rw [List.map_cons, Written.lines, String.intercalate_cons_cons]
    simp only [String.append_assoc, hlead] at hnext ⊢
    exact hnext

private theorem TypeSignature.types_ne_nil (t : TypeSignature) : t.types ≠ [] := by simp [types]

private theorem TypeSignature.unlines_lines (t : TypeSignature) :
    unlines t.lines = Written.typeSignature t.name t.types := by
  obtain ⟨first, rest, htypes⟩ := List.exists_cons_of_ne_nil t.types_ne_nil
  have hlead : "\n  :: " = "\n" ++ "  :: " := rfl
  have htypeLines := lines_typeLines_cons "  :: " first rest
  rw [unlines_eq_lines, lines, htypes, typeLines, Written.lines, Written.lines, htypeLines,
    Written.typeSignature, hlead]
  simp only [String.append_assoc]

theorem UnmanagedDefinition.text_eq (d : UnmanagedDefinition) :
    d.text = Written.unmanagedFunction d.signature.name d.signature.types d.binders
      d.block.resultText d.block.statement := by
  rw [text, lines, unlines_append, unlines_append, unlines_append, TypeSignature.unlines_lines,
    Written.unmanagedFunction]
  simp [unlines, head, Block.lines, String.append_assoc]

theorem ManagedDefinition.text_eq (d : ManagedDefinition) :
    d.text = Written.managedFunction d.signature.name d.signature.types d.arity := by
  rw [text, lines, unlines_append, unlines_append, TypeSignature.unlines_lines,
    Written.managedFunction]
  simp [unlines, body, String.append_assoc]

private theorem join_table_items (e : TypeEntry) (rest : List TypeEntry) :
    Written.tableItem e ++
        String.join ((rest.map TableLine.ofEntry).map fun l => "\n  , " ++ l.text) =
      String.intercalate "\n  , " ((e :: rest).map Written.tableItem) := by
  induction rest generalizing e with
  | nil => simp
  | cons next rest ih =>
    have hnext : (TableLine.ofEntry next).text = Written.tableItem next := rfl
    rw [List.map_cons, List.map_cons, String.join_cons, hnext, String.append_assoc, ih next,
      List.map_cons, List.map_cons, List.map_cons, String.intercalate_cons_cons,
      String.append_assoc]

private theorem tableLiteral_map_ofEntry (entries : List TypeEntry) :
    tableLiteral (entries.map .ofEntry) = Written.table entries := by
  cases entries with
  | nil => rfl
  | cons first rest =>
    have hliteral : tableLiteral ((first :: rest).map .ofEntry) =
        "Map.fromList\n  [ " ++ Written.tableItem first ++
          String.join ((rest.map TableLine.ofEntry).map fun l => "\n  , " ++ l.text) ++ "\n  ]" :=
      rfl
    have htable : Written.table (first :: rest) = "Map.fromList\n  [ " ++
        String.intercalate "\n  , " ((first :: rest).map Written.tableItem) ++ "\n  ]" := rfl
    rw [hliteral, htable, ← join_table_items first rest]
    simp only [String.append_assoc]

private theorem UnmanagedModule.preambleLines_ofStanzas (spec : ModuleSpec) (table : TypeTable)
    (stanzas : List Stanza) :
    unlines (ofStanzas spec table stanzas).preambleLines =
      Written.unmanagedPreamble spec.name spec.configuration.typeModuleName
        (usedEntries table stanzas) (commonIncludes ++ spec.category.extraIncludes) := by
  have htable : tableLiteral (ofStanzas spec table stanzas).table = _ :=
    tableLiteral_map_ofEntry (usedEntries table stanzas)
  rw [preambleLines, unlines_append, unlines_append, unlines_append, unlines_headerLines, htable,
    Written.unmanagedPreamble]
  simp only [unlines_eq_lines]
  rfl

private theorem ManagedModule.preambleLines_ofStanzas (spec : ModuleSpec) (stanzas : List Stanza) :
    unlines (ofStanzas spec stanzas).preambleLines =
      Written.managedPreamble spec.name spec.configuration.typeModuleName
        (spec.configuration.moduleName ["Cast"]) (spec.configuration.moduleName ["Objects"])
        (ModuleSpec.name { spec with ownership := .unmanaged }) := by
  rw [preambleLines, unlines_append, unlines_headerLines, unlines_eq_lines]
  rfl

theorem TypeModule.text_ofTable (configuration : Configuration) (table : TypeTable) :
    (ofTable configuration table).text = Written.typeModule configuration.typeModuleName
      (table.entries.filterMap (·.declaration)) (table.entries.filter (·.kind.listed)) := by
  have htable : tableLiteral (ofTable configuration table).table = _ :=
    tableLiteral_map_ofEntry (table.entries.filter (·.kind.listed))
  rw [text, lines, unlines_append, unlines_append, unlines_append, unlines_headerLines, htable,
    Written.typeModule]
  simp only [unlines_eq_lines]
  rfl

private theorem text_hostType (o : Ownership) (type : NativeType) (entry : TypeEntry) :
    (hostType o type entry).text = (HostShape.ofEntry type entry).parameter o.pointerWord := by
  unfold hostType HostShape.ofEntry
  cases entry.kind.byValue <;> cases type.isPtr <;> rfl

private theorem result_hostType (o : Ownership) (type : NativeType) (entry : TypeEntry) :
    "IO " ++ parenthesised (hostType o type entry).text =
      (HostShape.ofEntry type entry).result o.pointerWord := by
  rw [text_hostType, parenthesised_eq_operand]
  cases HostShape.ofEntry type entry with
  | value host => rfl
  | pointer host =>
    have hblank : ' ' ∈ (o.pointerWord ++ " " ++ Written.operand host).toList := by simp
    have hopen : "IO (" = "IO " ++ "(" := rfl
    rw [HostShape.parameter, HostShape.result, Written.operand, if_pos hblank, hopen]
    simp only [String.append_assoc]

private theorem TypeSignature.types_ofStanza (o : Ownership) (s : Stanza) :
    (ofStanza o s).types = s.hostTypes o.pointerWord := by
  have hparameters : (ofStanza o s).parameters.map HostType.text =
      s.parameters.map fun p => (HostShape.ofEntry p.type p.entry).parameter o.pointerWord := by
    simp only [ofStanza, List.map_map]
    exact List.map_congr_left fun p _ => text_hostType o p.type p.entry
  rw [types, hparameters, Stanza.hostTypes, ← result_hostType]
  rfl

private theorem text_ofParameter (p : StanzaParameter) :
    (Antiquote.ofParameter p).text = (WrittenArgument.ofParameter p).text := by
  unfold WrittenArgument.text Antiquote.text Antiquote.ofParameter WrittenArgument.ofParameter
  cases p.type.isPtr || !p.entry.kind.byValue
  · simp only [Bool.false_eq_true, if_false, String.append_empty]
  · simp only [if_true, String.append_assoc]
    rfl

private theorem call_ofStanza (s : Stanza) :
    (Block.ofStanza s).call = Written.call s.callee (s.parameters.map .ofParameter) := by
  have htexts : (Block.ofStanza s).arguments.map Antiquote.text =
      (s.parameters.map WrittenArgument.ofParameter).map WrittenArgument.text := by
    simp only [Block.ofStanza, List.map_map]
    exact List.map_congr_left fun p _ => text_ofParameter p
  have hempty : (Block.ofStanza s).arguments.isEmpty =
      (s.parameters.map WrittenArgument.ofParameter).isEmpty := by
    simp only [Block.ofStanza, List.isEmpty_map]
  rw [Block.call, Written.call, htexts, hempty]
  rfl

private theorem statement_ofStanza (s : Stanza) : (Block.ofStanza s).statement = s.statement := by
  have hform : (Block.ofStanza s).form = Block.formOf s := rfl
  rw [Block.statement, call_ofStanza, hform, Block.formOf, Stanza.statement]
  cases s.returnType.isPtr <;> cases s.returnEntry.kind.byValue <;>
    by_cases hvoid : s.returnEntry.native = "void" <;> simp [hvoid] <;> simp [Block.ofStanza, hvoid]

theorem stanzaText_unmanaged (s : Stanza) :
    Ownership.stanzaText .unmanaged s = s.written.text := by
  have htypes : (UnmanagedDefinition.ofStanza s).signature.types = s.hostTypes "Ptr" :=
    TypeSignature.types_ofStanza .unmanaged s
  have hstatement : (UnmanagedDefinition.ofStanza s).block.statement = s.statement :=
    statement_ofStanza s
  rw [Ownership.stanzaText, UnmanagedDefinition.text_eq, htypes, hstatement]
  rfl

theorem stanzaText_managed (s : Stanza) : Ownership.stanzaText .managed s =
    Written.managedFunction s.hostName (s.hostTypes "ForeignPtr") s.binders.length := by
  have htypes : (ManagedDefinition.ofStanza s).signature.types = s.hostTypes "ForeignPtr" :=
    TypeSignature.types_ofStanza .managed s
  have harity : s.binders.length = s.parameters.length := List.length_map _
  rw [Ownership.stanzaText, ManagedDefinition.text_eq, htypes, harity]
  rfl

end HostModule

namespace ModuleSpec

variable (configuration : Configuration) (category : Category) (table : TypeTable)

theorem textOf_unmanaged (stanzas : List Stanza) :
    textOf ⟨configuration, category, .unmanaged⟩ table stanzas =
      Written.unmanagedPreamble (name ⟨configuration, category, .unmanaged⟩)
        configuration.typeModuleName (UnmanagedModule.usedEntries table stanzas)
        (UnmanagedModule.commonIncludes ++ category.extraIncludes) ++
      String.join (stanzas.map fun s => s.written.text) := by
  rw [textOf_eq, preamble, UnmanagedModule.preambleLines_ofStanzas]
  simp only [← stanzaText_unmanaged]

theorem textOf_managed (stanzas : List Stanza) :
    textOf ⟨configuration, category, .managed⟩ table stanzas =
      Written.managedPreamble (name ⟨configuration, category, .managed⟩)
        configuration.typeModuleName (configuration.moduleName ["Cast"])
        (configuration.moduleName ["Objects"]) (name ⟨configuration, category, .unmanaged⟩) ++
      String.join (stanzas.map fun s =>
        Written.managedFunction s.hostName (s.hostTypes "ForeignPtr") s.binders.length) := by
  rw [textOf_eq, preamble, ManagedModule.preambleLines_ofStanzas]
  simp only [← stanzaText_managed]

end ModuleSpec

end NativeBindings
