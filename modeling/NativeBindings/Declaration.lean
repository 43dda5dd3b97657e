import NativeBindings.Binary64
import NativeBindings.TypeExpr

set_option autoImplicit false
set_option relaxedAutoImplicit false

/-!
Declarations of native functions, and the variants that come from leaving out defaulted arguments
at the end of an argument list.
-/

namespace NativeBindings

inductive Mode where
  | th
  | thc
  | nn
  | native
  deriving DecidableEq

def Mode.word : Mode → String
  | th => "TH"
  | thc => "THC"
  | nn => "NN"
  | native => "native"

def Mode.all : List Mode := [th, thc, nn, native]

def Mode.ofWord? (word : String) : Option Mode := Mode.all.find? (·.word = word)

theorem Mode.ofWord?_word (m : Mode) : Mode.ofWord? m.word = some m := by
  cases m <;> decide

inductive DefaultValue where
  | bool (value : Bool)
  | int (value : Int)
  | float (value : Binary64)
  | text (value : String)
  deriving DecidableEq

structure Argument where
  name : String
  type : TypeExpr
  defaultValue : Option DefaultValue

def Argument.hasDefault (a : Argument) : Bool := a.defaultValue.isSome

structure Declaration where
  name : String
  overloadName : Option String
  arguments : List Argument
  returns : List TypeExpr
  mode : Mode
  methodOf : List String
  isFactoryMethod : Option Bool

namespace Declaration

def trailingDefaults (d : Declaration) : Nat :=
  (d.arguments.reverse.takeWhile Argument.hasDefault).length

theorem trailingDefaults_le (d : Declaration) : d.trailingDefaults ≤ d.arguments.length := by
  have h := (List.takeWhile_prefix Argument.hasDefault (l := d.arguments.reverse)).length_le
  simpa [trailingDefaults] using h

def requiredCount (d : Declaration) : Nat := d.arguments.length - d.trailingDefaults

def hasMisplacedDefault (d : Declaration) : Bool :=
  (d.arguments.take d.requiredCount).any Argument.hasDefault

/-- The name by which messages speak of the declaration, with the overload name if there is one. -/
def qualifiedName (d : Declaration) : String :=
  match d.overloadName with
  | none => d.name
  | some o => if o.isEmpty then d.name else d.name ++ "." ++ o

def isMethodOf (d : Declaration) (tag : String) : Bool := d.methodOf.contains tag

def isMethodOfAny (d : Declaration) (tags : List String) : Bool := tags.any d.isMethodOf

def isFactory (d : Declaration) : Bool := d.isFactoryMethod == some true

def truncated (d : Declaration) (count : Nat) : Declaration :=
  { d with arguments := d.arguments.take count }

/-- The declaration with the last few arguments left out, for each number of omissions from none up
to the trailing defaults. -/
def variants (d : Declaration) : List Declaration :=
  (List.range (d.trailingDefaults + 1)).map fun omitted =>
    d.truncated (d.arguments.length - omitted)

end Declaration

end NativeBindings
