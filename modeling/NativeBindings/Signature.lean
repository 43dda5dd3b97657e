import NativeBindings.Declaration
import NativeBindings.NativeType.Classify

set_option autoImplicit false
set_option relaxedAutoImplicit false

/-!
Signatures of native functions. Generators are supplied by the runtime and take no part in them.
-/

namespace NativeBindings

def NativeType.isGenerator (t : NativeType) : Bool :=
  match t.pointee with
  | .handle .generator => true
  | _ => false

inductive Parameter where
  | explicit (name : String) (type : NativeType)
  | implicit (name : String)

def Argument.parameter (a : Argument) : Parameter :=
  let t := NativeType.ofExpr a.type
  if t.isGenerator then .implicit a.name else .explicit a.name t

inductive Returns where
  | one (type : NativeType)
  | several (types : List NativeType)

def Returns.type : Returns → NativeType
  | one t => t
  | several [] => .primitive .void
  | several (t :: rest) => .tuple (t :: rest)

def Returns.ofTypes : List NativeType → Returns
  | [t] => .one t
  | ts => .several ts

structure Signature where
  name : String
  parameters : List Parameter
  returns : Returns

namespace Signature

def explicit? : Parameter → Option (String × NativeType)
  | .explicit name type => some (name, type)
  | .implicit _ => none

def explicits (s : Signature) : List (String × NativeType) := s.parameters.filterMap explicit?

def parameterText (p : String × NativeType) : String := p.2.spelling ++ " " ++ p.1

def text (s : Signature) : String :=
  s.name ++ "(" ++ String.intercalate ", " (s.explicits.map parameterText) ++ ") -> " ++
    s.returns.type.spelling

def ofDeclaration (d : Declaration) : Signature where
  name := d.name
  parameters := d.arguments.map Argument.parameter
  returns := .ofTypes (d.returns.map NativeType.ofExpr)

end Signature

end NativeBindings
