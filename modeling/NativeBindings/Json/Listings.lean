import NativeBindings.Json.Reader

set_option autoImplicit false
set_option relaxedAutoImplicit false

/-!
Specifications in JSON: a list of declarations.
-/

namespace NativeBindings.Json

def depthLimit : Nat := 128

/-- The default value that a number is. Integers beyond 64 bits with a sign become floats. -/
def Numeral.defaultValue : Numeral → DefaultValue
  | natural n => if n < Nat.pow 2 63 then .int n else .float (Binary64.ofNat n)
  | negative n => .int (-n)
  | float x => .float x

/-- Reads a default value. Lists and objects are none; they lie inside four others. -/
def defaultValue : Reader DefaultValue := fun cs =>
  match skipSpace cs with
  | [] => .error (.here .endInValue [])
  | c :: rest =>
    if c = 't' ∨ c = 'f' then (bool (c :: rest)).map fun p => (.bool p.1, p.2)
    else if c = '"' then (text (c :: rest)).map fun p => (.text p.1, p.2)
    else if c = '-' ∨ c.isDigit then
      (readNumber (c :: rest)).map fun p => (p.1.defaultValue, p.2)
    else
      match skipValue .looked (depthLimit - 4) (c :: rest) with
      | .error f => .error f
      | .ok after => .error (.enclosing .noDefaultValue after)

def modeWord : Reader Mode := fun cs =>
  match textOf "variant identifier" cs with
  | .error f => .error f
  | .ok (word, rest) =>
    match Mode.ofWord? word with
    | some m => .ok (m, rest)
    | none => .error (.here (.mismatch (.unknownMode word)) rest)

/-- Reads the key of an object that names a mode. An object without members has none. -/
def modeKey : Reader Mode := fun cs =>
  match skipSpace cs with
  | [] => .error (.here .endInObject [])
  | c :: rest =>
    if c = '"' then modeWord (c :: rest)
    else if c = '\x7d' then .error (.next .expectedValue (c :: rest))
    else .error (.next .keyNotString (c :: rest))

def modeEnd (m : Mode) : Reader Mode := fun cs =>
  match skipSpace cs with
  | [] => .error (.here .endInObject [])
  | c :: rest =>
    if c = '\x7d' then .ok (m, rest) else .error (.here .expectedValue (c :: rest))

def mode : Reader Mode := fun cs =>
  match skipSpace cs with
  | [] => .error (.here .endInValue [])
  | c :: rest =>
    if c = '"' then modeWord (c :: rest)
    else if c = '\x7b' then
      match modeKey rest with
      | .error f => .error f
      | .ok (m, afterWord) =>
        match takeColon afterWord with
        | .error f => .error f
        | .ok value =>
          match null value with
          | .error f => .error f
          | .ok ((), after) => modeEnd m after
    else .error (.next .expectedValue (c :: rest))

def argument : Reader ListedArgument :=
  record ListedArgument.shape fun
    | .name => text
    | .type => text
    | .defaultValue => optional defaultValue

def returned : Reader ListedReturn :=
  record ListedReturn.shape fun
    | .name => optional text
    | .type => text

def listing : Reader Listing :=
  record Listing.shape fun
    | .name => text
    | .overloadName => optional text
    | .arguments => list argument
    | .returns => list returned
    | .mode => mode
    | .methodOf => list text
    | .isFactoryMethod => optional bool

def listings (source : String) : Except Fault (List Listing) :=
  match list listing source.toList with
  | .error f => .error f
  | .ok (found, rest) =>
    match skipSpace rest with
    | [] => .ok found
    | c :: more => .error (.next .trailingCharacters (c :: more))

end NativeBindings.Json
