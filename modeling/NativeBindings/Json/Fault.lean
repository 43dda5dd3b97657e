import NativeBindings.Binary64.Text
import NativeBindings.Listing.Mismatch
import NativeBindings.Text.Position

set_option autoImplicit false
set_option relaxedAutoImplicit false

/-!
Faults of JSON texts. A fault remembers the text that was left when it was seen; its place follows
from the number of bytes read until then.
-/

namespace NativeBindings.Json

inductive Cause where
  | endInList
  | endInObject
  | endInString
  | endInValue
  | expectedColon
  | expectedListSeparator
  | expectedObjectSeparator
  | expectedWord
  | expectedValue
  | invalidEscape
  | invalidNumber
  | numberOutOfRange
  | loneSurrogate
  | endOfSurrogatePair
  | controlCharacter
  | keyNotString
  | trailingComma
  | trailingCharacters
  | tooDeep
  | mismatch (reason : Mismatch)

def Cause.message : Cause → String
  | endInList => "EOF while parsing a list"
  | endInObject => "EOF while parsing an object"
  | endInString => "EOF while parsing a string"
  | endInValue => "EOF while parsing a value"
  | expectedColon => "expected `:`"
  | expectedListSeparator => "expected `,` or `]`"
  | expectedObjectSeparator => "expected `,` or `\x7d`"
  | expectedWord => "expected ident"
  | expectedValue => "expected value"
  | invalidEscape => "invalid escape"
  | invalidNumber => "invalid number"
  | numberOutOfRange => "number out of range"
  | loneSurrogate => "lone leading surrogate in hex escape"
  | endOfSurrogatePair => "unexpected end of hex escape"
  | controlCharacter => "control character (\\u0000-\\u001F) found while parsing a string"
  | keyNotString => "key must be a string"
  | trailingComma => "trailing comma"
  | trailingCharacters => "trailing characters"
  | tooDeep => "recursion limit exceeded"
  | mismatch reason => reason.message Binary64.rangedText

structure Fault where
  cause : Cause
  rest : List Char
  ahead : Nat
  /-- The place of the fault is final; otherwise it moves to the end of the enclosing value. -/
  settled : Bool

def Fault.here (cause : Cause) (rest : List Char) : Fault := ⟨cause, rest, 0, true⟩

def Fault.next (cause : Cause) (rest : List Char) : Fault := ⟨cause, rest, 1, true⟩

def Fault.enclosing (reason : Mismatch) (rest : List Char) : Fault :=
  ⟨.mismatch reason, rest, 0, false⟩

/-- The fault in its final place, the end of the enclosing value lying at `finish` of its rest. -/
def Fault.settle (f : Fault) (finish : List Char → List Char) : Fault :=
  if f.settled then f else ⟨f.cause, finish f.rest, 0, true⟩

def Fault.offset (f : Fault) (source : List Char) : Nat :=
  min (Text.byteCount source) (Text.byteCount source - Text.byteCount f.rest + f.ahead)

def Fault.place (f : Fault) (source : String) : Text.LineColumn :=
  .after ((Text.bytes source).take (f.offset source.toList))

def Fault.message (f : Fault) (source : String) : String :=
  f.cause.message ++ " at line " ++ (f.place source).line.repr ++ " column " ++
    (f.place source).column.repr

end NativeBindings.Json
