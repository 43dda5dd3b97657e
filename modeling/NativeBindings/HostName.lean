import NativeBindings.Signature
import NativeBindings.TypeTable

set_option autoImplicit false
set_option relaxedAutoImplicit false

/-!
The names of functions and parameters on the host side. The host has no overloading, so the name of
a function carries the codes of its parameter types.
-/

namespace NativeBindings.HostName

def isNameChar (c : Char) : Bool := c.isAlphanum || c == '_'

def isNameStart (c : Char) : Bool := c.isLower || c == '_'

def nameChar (c : Char) : Char := if isNameChar c then c else '_'

def nameChars (cs : List Char) : List Char :=
  if cs.head?.any isNameStart then cs.map nameChar else '_' :: cs.map nameChar

def ofName (name : String) : String := String.ofList (nameChars name.toList)

def ofParameter (name : String) : String := "_" ++ ofName name

def code (table : TypeTable) (function : String) (type : NativeType) :
    Except UnmappedType String :=
  (table.resolve type function).map fun e => (if type.isPtr then "p" else "") ++ e.code

def codes (table : TypeTable) (s : Signature) : Except UnmappedType (List String) :=
  s.explicits.mapM fun p => code table s.name p.2

def ofSignature (table : TypeTable) (s : Signature) : Except UnmappedType String :=
  (codes table s).map fun cs => ofName s.name ++ "_" ++ String.join cs

end NativeBindings.HostName
