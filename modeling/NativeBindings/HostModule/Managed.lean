import NativeBindings.HostModule

set_option autoImplicit false
set_option relaxedAutoImplicit false

/-!
Modules of pointers that the host frees: every function passes on to the one of the same name in the
module of plain pointers.
-/

namespace NativeBindings.HostModule

structure ManagedDefinition where
  signature : TypeSignature
  arity : Nat
  deriving DecidableEq

namespace ManagedDefinition

def ofStanza (s : Stanza) : ManagedDefinition where
  signature := .ofStanza .managed s
  arity := s.parameters.length

def body (d : ManagedDefinition) : String :=
  d.signature.name ++ " = cast" ++ d.arity.repr ++ " Unmanaged." ++ d.signature.name

def lines (d : ManagedDefinition) : List String := [""] ++ d.signature.lines ++ [d.body]

def text (d : ManagedDefinition) : String := unlines d.lines

end ManagedDefinition

structure ManagedModule where
  name : String
  typeModule : String
  castModule : String
  objectsModule : String
  unmanagedModule : String
  definitions : List ManagedDefinition

namespace ManagedModule

def ofStanzas (spec : ModuleSpec) (stanzas : List Stanza) : ManagedModule where
  name := spec.name
  typeModule := spec.configuration.typeModuleName
  castModule := spec.configuration.moduleName ["Cast"]
  objectsModule := spec.configuration.moduleName ["Objects"]
  unmanagedModule := ModuleSpec.name { spec with ownership := .unmanaged }
  definitions := stanzas.map .ofStanza

def preambleLines (m : ManagedModule) : List String :=
  headerLines m.name ++
    ["import Foreign.C.String", "import Foreign.C.Types", "import Foreign",
      "import " ++ m.typeModule, "import " ++ m.castModule, "import " ++ m.objectsModule,
      "import qualified " ++ m.unmanagedModule ++ " as Unmanaged", ""]

def text (m : ManagedModule) : String :=
  unlines m.preambleLines ++ String.join (m.definitions.map ManagedDefinition.text)

end ManagedModule

end NativeBindings.HostModule
