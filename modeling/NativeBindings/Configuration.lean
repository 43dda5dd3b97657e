import NativeBindings.Text.Blank
import NativeBindings.Text.Split

set_option autoImplicit false
set_option relaxedAutoImplicit false

/-!
The names under which modules are generated.
-/

namespace NativeBindings

/-- The root of all modules, as its segments, and the name of the type module. -/
structure Configuration where
  moduleRoot : List String
  typeModule : String
  deriving DecidableEq

namespace Configuration

def standard : Configuration := ⟨["Torch", "Internal"], "Type"⟩

def moduleName (c : Configuration) (parts : List String) : String :=
  String.intercalate "." (c.moduleRoot ++ parts)

def typeModuleName (c : Configuration) : String := c.moduleName [c.typeModule]

def segmentChar (c : Char) : Char := if c.isAlphanum || c == '_' then c else '_'

/-- The first characters of a segment: a capital letter, put in front where there is no letter. -/
def segmentStart (c : Char) : List Char :=
  if c.isAlpha then [c.toUpper]
  else if c.isDigit || c == '_' then ['M', c]
  else ['M']

def segment (s : List Char) : String :=
  match s with
  | [] => "M"
  | c :: rest => String.ofList (segmentStart c ++ rest.map segmentChar)

/-- The segments of a stated root; parts without visible characters are left out. -/
def rootSegments (root : String) : List String :=
  (((Text.split '.' root.toList).map Text.trim).filter fun part => !part.isEmpty).map segment

/-- The configuration of a stated root and type module. What states nothing is as standard. -/
def ofStated (root typeModule : Option String) : Configuration where
  moduleRoot :=
    match root.map rootSegments with
    | none => standard.moduleRoot
    | some [] => standard.moduleRoot
    | some segments => segments
  typeModule :=
    match typeModule.map fun s => Text.trim s.toList with
    | none => standard.typeModule
    | some [] => standard.typeModule
    | some name => segment name

end Configuration

end NativeBindings
