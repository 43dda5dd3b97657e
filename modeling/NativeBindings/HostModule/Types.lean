import NativeBindings.HostModule

set_option autoImplicit false
set_option relaxedAutoImplicit false

/-!
The module that declares the host types and lists the whole type table.
-/

namespace NativeBindings.HostModule

structure TypeModule where
  name : String
  declarations : List String
  table : List TableLine

namespace TypeModule

def ofTable (configuration : Configuration) (table : TypeTable) : TypeModule where
  name := configuration.typeModuleName
  declarations := table.entries.filterMap (·.declaration)
  table := (table.entries.filter (·.kind.listed)).map .ofEntry

def lines (m : TypeModule) : List String :=
  headerLines m.name ++
    ["import Foreign.C.Types", "import Data.Int (Int8, Int64)", "import qualified Data.Map as Map",
      "import qualified Language.C.Inline.Context as C", "import qualified Language.C.Types as C",
      "", "data StdVector a", "data StdArray a", "data StdTuple a", ""] ++
    m.declarations ++
    ["", "typeTable :: C.TypesTable", "typeTable = " ++ tableLiteral m.table]

def text (m : TypeModule) : String := unlines m.lines

end TypeModule

end NativeBindings.HostModule
