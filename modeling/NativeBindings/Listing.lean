import NativeBindings.Declaration

set_option autoImplicit false
set_option relaxedAutoImplicit false

/-!
Declarations as a specification lists them: their types are still texts.
-/

namespace NativeBindings

structure ListedArgument where
  name : String
  type : String
  defaultValue : Option DefaultValue
  deriving DecidableEq

structure ListedReturn where
  name : Option String
  type : String
  deriving DecidableEq

structure Listing where
  name : String
  overloadName : Option String
  arguments : List ListedArgument
  returns : List ListedReturn
  mode : Mode
  methodOf : List String
  isFactoryMethod : Option Bool
  deriving DecidableEq

end NativeBindings
