import NativeBindings.Configuration
import NativeBindings.Files.Failure
import NativeBindings.Files.Path
import NativeBindings.Log
import NativeBindings.Toml.Decoder

set_option autoImplicit false
set_option relaxedAutoImplicit false

/-!
Loading a configuration from the file beside a specification. Only a file that is there and cannot
be read is a failure; one that states nothing usable leaves the standard configuration.
-/

namespace NativeBindings.Configuration

structure Stated where
  root : Option String
  typeModule : Option String
  deriving DecidableEq

inductive StatedField where
  | root
  | typeModule
  deriving DecidableEq

def statedShape : Shape Stated where
  Field := StatedField
  Value _ := Option String
  title := "struct ModuleTable"
  fields := [.root, .typeModule]
  key
    | .root => "root"
    | .typeModule => "type_module"
  absent _ := some none
  assemble value := do
    let root ← value .root
    let typeModule ← value .typeModule
    return ⟨root, typeModule⟩

inductive FileField where
  | module
  deriving DecidableEq

def fileShape : Shape Stated where
  Field := FileField
  Value _ := Stated
  title := "struct CodegenToml"
  fields := [.module]
  key _ := "module"
  absent _ := some ⟨none, none⟩
  assemble value := value .module

def stated : Toml.Decoder Stated :=
  Toml.record fileShape fun _ => Toml.record statedShape fun _ => Toml.optional Toml.text

def ofText (source : String) : Except String Configuration :=
  match Toml.document source.toList with
  | .error f => .error f.cause.message
  | .ok root =>
    match stated root with
    | .error f => .error f.cause.message
    | .ok s => .ok (ofStated s.root s.typeModule)

def fileName : String := "Codegen.toml"

/-- The configuration of a file that was to be read, with what is to be told about it. -/
def ofFile (path : String) (result : Except FileFault String) :
    Except FileFailure (Configuration × List LogLine) :=
  match result with
  | .error .notFound => .ok (standard, [])
  | .error fault => .error ⟨.read path, fault⟩
  | .ok source =>
    match ofText source with
    | .ok c => .ok (c, [])
    | .error reason => .ok (standard, [.configurationIgnored path reason])

def pathIn (directory : String) : String := Path.join directory fileName

def pathBeside (specification : String) : String :=
  pathIn ((Path.parent? specification).getD ".")

def rootDirectory (c : Configuration) : String := c.moduleRoot.foldl Path.join ""

end NativeBindings.Configuration
