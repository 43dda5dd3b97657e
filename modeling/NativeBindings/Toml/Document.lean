import NativeBindings.Binary64.Text
import NativeBindings.Listing.Mismatch
import NativeBindings.Toml.Line

set_option autoImplicit false
set_option relaxedAutoImplicit false

/-!
The tables of a TOML text. Lines are entered one after the other; a header opens a table that takes
the members of the lines behind it and is entered itself when the next header or the end is reached.
-/

namespace NativeBindings.Toml

structure Key where
  name : String
  extent : Extent

/-- How a table came to be, which decides whether it may be extended. -/
inductive Origin where
  | implied
  | dotted
  | opened
  | braced
  deriving DecidableEq

mutual

inductive Node where
  | scalar (extent : Extent) (value : Scalar)
  | list (extent : Extent) (items : List Node)
  | tables (extent : Extent) (items : List Node)
  | table (extent : Extent) (origin : Origin) (entries : List Entry)

inductive Entry where
  | mk (key : Key) (value : Node)

end

def Entry.key : Entry → Key
  | mk key _ => key

def Entry.value : Entry → Node
  | mk _ value => value

def Node.extent : Node → Extent
  | scalar e _ => e
  | list e _ => e
  | tables e _ => e
  | table e _ _ => e

inductive Cause where
  | malformed
  | duplicateKey
  | mismatch (reason : Mismatch)

def Cause.message : Cause → String
  | malformed => "malformed TOML"
  | duplicateKey => "duplicate key"
  | mismatch reason => reason.message Binary64.pointText

structure Fault where
  cause : Cause
  extent : Extent

abbrev Entries : Type := List Entry

def find? (name : String) (entries : Entries) : Option Node :=
  (entries.find? fun e => e.key.name = name).map Entry.value

def replace (name : String) (value : Node) (entries : Entries) : Entries :=
  entries.map fun e => if e.key.name = name then .mk e.key value else e

def remove (name : String) (entries : Entries) : Entries :=
  entries.filter fun e => e.key.name ≠ name

inductive Setting where
  | header
  | line
  | braces
  deriving DecidableEq

def Setting.origin : Setting → Origin
  | header => .implied
  | _ => .dotted

def Origin.extensible (origin : Origin) (setting : Setting) : Bool :=
  match origin with
  | implied => true
  | dotted => true
  | opened => setting == .header
  | braced => false

/-- The fault of a table that may not be extended. Between braces it counts as a second value for
its key; from outside, its braces may not be opened again. -/
def Origin.fault (origin : Origin) (setting : Setting) (key : Key) : Fault :=
  if origin = .braced ∧ setting ≠ .braces then ⟨.malformed, key.extent⟩
  else ⟨.duplicateKey, key.extent⟩

/-- Changes the table at the end of a path. Tables that are missing on the way are made; of tables
that were opened one by one, the last is meant. -/
def updateAt (setting : Setting)
    (change : Origin → Entries → Except Fault Entries) :
    List Key → Origin → Entries → Except Fault Entries
  | [], origin, entries => change origin entries
  | key :: path, _, entries =>
    match find? key.name entries with
    | none =>
      (updateAt setting change path setting.origin []).map fun inner =>
        entries ++ [.mk key (.table key.extent setting.origin inner)]
    | some (.table extent origin inner) =>
      if origin.extensible setting then
        (updateAt setting change path origin inner).map fun inner =>
          replace key.name (.table extent origin inner) entries
      else .error (origin.fault setting key)
    | some (.tables extent items) =>
      match items.getLast? with
      | some (.table last origin inner) =>
        (updateAt setting change path origin inner).map fun inner =>
          replace key.name (.tables extent (items.dropLast ++ [.table last origin inner])) entries
      | _ => .error ⟨.malformed, key.extent⟩
    | some _ => .error ⟨.malformed, key.extent⟩

/-- Enters a value under a new name. A dotted key may only end in a table made by dotted keys. -/
def enter (viaPath : Bool) (key : Key) (value : Node) (origin : Origin) (entries : Entries) :
    Except Fault Entries :=
  if (origin == .dotted) != viaPath then .error ⟨.duplicateKey, key.extent⟩
  else if (find? key.name entries).isSome then .error ⟨.duplicateKey, key.extent⟩
  else .ok (entries ++ [.mk key value])

def enterMember (setting : Setting) (parents : List Key) (key : Key) (value : Node)
    (entries : Entries) : Except Fault Entries :=
  updateAt setting (enter (!parents.isEmpty) key value) parents .opened entries

def WrittenKey.key (k : WrittenKey) : Except Fault Key :=
  match k.name with
  | some name => .ok ⟨name, k.extent⟩
  | none => .error ⟨.malformed, k.extent⟩

def pathLimit : Nat := 80

def WrittenPath.keys (p : WrittenPath) : Except Fault (List Key × Key) := do
  let parents ← p.parents.mapM WrittenKey.key
  let last ← p.last.key
  if parents.length < pathLimit then return (parents, last)
  else throw ⟨.malformed, last.extent⟩

mutual

def WrittenValue.node : WrittenValue → Except Fault Node
  | .scalar extent (some value) => .ok (.scalar extent value)
  | .scalar extent none => .error ⟨.malformed, extent⟩
  | .list extent items => (WrittenValue.nodes items).map (.list extent)
  | .table extent members => (WrittenMember.enterAll members []).map (.table extent .braced)

def WrittenValue.nodes : List WrittenValue → Except Fault (List Node)
  | [] => .ok []
  | v :: rest =>
    match v.node with
    | .error f => .error f
    | .ok n => (WrittenValue.nodes rest).map (n :: ·)

def WrittenMember.enter : WrittenMember → Entries → Except Fault Entries
  | .mk path value, entries =>
    match path.keys with
    | .error f => .error f
    | .ok (parents, key) =>
      match value.node with
      | .error f => .error f
      | .ok node => enterMember .braces parents key node entries

def WrittenMember.enterAll : List WrittenMember → Entries → Except Fault Entries
  | [], entries => .ok entries
  | m :: rest, entries =>
    match m.enter entries with
    | .error f => .error f
    | .ok entries => WrittenMember.enterAll rest entries

end

structure Header where
  extent : Extent
  parents : List Key
  key : Key
  listed : Bool

/-- A document under construction: its root, and the table that is open behind a header. -/
structure Draft where
  root : Entries
  header : Option Header
  entries : Entries

def Header.close (h : Header) (inner entries : Entries) : Except Fault Entries :=
  let table := Node.table h.extent .opened inner
  if h.listed then
    match find? h.key.name entries with
    | none => .ok (entries ++ [.mk h.key (.tables h.extent [table])])
    | some (.tables extent items) =>
      .ok (replace h.key.name (.tables extent (items ++ [table])) entries)
    | some _ => .error ⟨.duplicateKey, h.key.extent⟩
  else .ok (entries ++ [.mk h.key table])

def Draft.close (d : Draft) : Except Fault Entries :=
  match d.header with
  | none => .ok d.root
  | some h => updateAt .header (fun _ => h.close d.entries) h.parents .opened d.root

/-- The members that a table has when its header is met: those of an implied one. -/
def Header.taken (h : Header) (entries : Entries) : Except Fault Entries :=
  match find? h.key.name entries with
  | none => .ok []
  | some (.table _ .implied inner) => .ok inner
  | some _ => .error ⟨.duplicateKey, h.key.extent⟩

def lookAt (look : Entries → Except Fault Entries) :
    List Key → Entries → Except Fault Entries
  | [], entries => look entries
  | key :: path, entries =>
    match find? key.name entries with
    | none => lookAt look path []
    | some (.table _ origin inner) =>
      if origin.extensible .header then lookAt look path inner
      else .error (origin.fault .header key)
    | some (.tables _ items) =>
      match items.getLast? with
      | some (.table _ _ inner) => lookAt look path inner
      | _ => .error ⟨.malformed, key.extent⟩
    | some _ => .error ⟨.malformed, key.extent⟩

def Header.openIn (h : Header) (root : Entries) : Except Fault Draft :=
  if h.listed then .ok ⟨root, some h, []⟩
  else
    match lookAt h.taken h.parents root with
    | .error f => .error f
    | .ok inner =>
      (updateAt .header (fun _ entries => .ok (remove h.key.name entries)) h.parents .opened
        root).map (⟨·, some h, inner⟩)

def Draft.openTable (d : Draft) (extent : Extent) (path : WrittenPath) (listed : Bool) :
    Except Fault Draft :=
  match d.close with
  | .error f => .error f
  | .ok root =>
    match path.keys with
    | .error f => .error f
    | .ok (parents, key) => Header.openIn ⟨extent, parents, key, listed⟩ root

def Draft.enterMember (d : Draft) (path : WrittenPath) (value : WrittenValue) :
    Except Fault Draft :=
  match path.keys with
  | .error f => .error f
  | .ok (parents, key) =>
    match value.node with
    | .error f => .error f
    | .ok node =>
      match d.header with
      | none => (Toml.enterMember .line parents key node d.root).map ({ d with root := · })
      | some _ =>
        (Toml.enterMember .line parents key node d.entries).map ({ d with entries := · })

def Draft.enterLine (d : Draft) : Line → Except Fault Draft
  | .member path value => d.enterMember path value
  | .header listed extent path => d.openTable extent path listed

def Draft.enterLines (d : Draft) : List Line → Except Fault Draft
  | [] => .ok d
  | line :: rest =>
    match d.enterLine line with
    | .error f => .error f
    | .ok d => d.enterLines rest

def wholeExtent (source : List Char) : Extent := ⟨source, source⟩

def document (source : List Char) : Except Fault Node :=
  match readLines? source with
  | none => .error ⟨.malformed, wholeExtent source⟩
  | some lines =>
    match Draft.enterLines ⟨[], none, []⟩ lines with
    | .error f => .error f
    | .ok d => d.close.map (.table (wholeExtent source) .opened)

end NativeBindings.Toml
