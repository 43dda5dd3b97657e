import NativeBindings.Json.Fault
import NativeBindings.Text.Digit

set_option autoImplicit false
set_option relaxedAutoImplicit false

/-!
JSON strings, read and skipped after their opening quote. A string that is skipped may hold escapes
of lone surrogates.
-/

namespace NativeBindings.Json

def fourHex? : List Char → Option Nat
  | a :: b :: c :: d :: _ => do
    let a ← Text.hexDigit? a
    let b ← Text.hexDigit? b
    let c ← Text.hexDigit? c
    let d ← Text.hexDigit? d
    return ((a * 16 + b) * 16 + c) * 16 + d
  | _ => none

def hexFault (rest : List Char) : Fault :=
  if Text.byteCount rest < 4 then .here .endInString [] else ⟨.invalidEscape, rest, 4, true⟩

def isHighSurrogate (n : Nat) : Bool := decide (0xD800 ≤ n) && decide (n ≤ 0xDBFF)

def isLowSurrogate (n : Nat) : Bool := decide (0xDC00 ≤ n) && decide (n ≤ 0xDFFF)

def ofSurrogates (high low : Nat) : Char :=
  Char.ofNat (0x10000 + (high - 0xD800) * 0x400 + (low - 0xDC00))

/-- Reads the second half of a pair and gives its character and the characters used. -/
def readLow (high : Nat) : List Char → Except Fault (Char × Nat)
  | [] => .error (.here .endInString [])
  | ['\\'] => .error (.here .endInString [])
  | '\\' :: 'u' :: rest =>
    match fourHex? rest with
    | none => .error (hexFault rest)
    | some low =>
      if isLowSurrogate low then .ok (ofSurrogates high low, 6)
      else .error (.here .loneSurrogate (rest.drop 4))
  | '\\' :: c :: rest => .error (.next .endOfSurrogatePair (c :: rest))
  | c :: rest => .error (.next .endOfSurrogatePair (c :: rest))

/-- Reads the digits of a code point escape and gives its character and the characters used. -/
def readCodePoint (cs : List Char) : Except Fault (Char × Nat) :=
  match fourHex? cs with
  | none => .error (hexFault cs)
  | some n =>
    if isLowSurrogate n then .error (.here .loneSurrogate (cs.drop 4))
    else if isHighSurrogate n then (readLow n (cs.drop 4)).map fun p => (p.1, p.2 + 4)
    else .ok (Char.ofNat n, 4)

def letterEscapes : List (Char × Char) :=
  [('"', '"'), ('\\', '\\'), ('/', '/'), ('b', '\x08'), ('f', '\x0c'), ('n', '\n'), ('r', '\r'),
    ('t', '\t')]

/-- Reads an escape after its backslash and gives its character and the characters used. -/
def readEscape : List Char → Except Fault (Char × Nat)
  | [] => .error (.here .endInString [])
  | c :: rest =>
    match letterEscapes.lookup c with
    | some e => .ok (e, 1)
    | none =>
      if c = 'u' then (readCodePoint rest).map fun p => (p.1, p.2 + 1)
      else .error (.next .invalidEscape (c :: rest))

def isControl (c : Char) : Bool := decide (c.toNat < 32)

def readString : List Char → Except Fault (List Char × List Char)
  | [] => .error (.here .endInString [])
  | c :: rest =>
    if c = '"' then .ok ([], rest)
    else if c = '\\' then
      match readEscape rest with
      | .error f => .error f
      | .ok (e, used) => (readString (rest.drop used)).map fun p => (e :: p.1, p.2)
    else if isControl c then .error (.next .controlCharacter (c :: rest))
    else (readString rest).map fun p => (c :: p.1, p.2)
termination_by cs => cs.length
decreasing_by
  · simp only [List.length_drop, List.length_cons]
    omega
  · simp

/-- The number of characters of an escape that is skipped, after its backslash. -/
def escapeLength : List Char → Except Fault Nat
  | [] => .error (.here .endInString [])
  | c :: rest =>
    match letterEscapes.lookup c with
    | some _ => .ok 1
    | none =>
      if c = 'u' then
        match fourHex? rest with
        | none => .error (hexFault rest)
        | some _ => .ok 5
      else .error (.next .invalidEscape (c :: rest))

def skipString : List Char → Except Fault (List Char)
  | [] => .error (.here .endInString [])
  | c :: rest =>
    if c = '"' then .ok rest
    else if c = '\\' then
      match escapeLength rest with
      | .error f => .error f
      | .ok used => skipString (rest.drop used)
    else if isControl c then .error (.here .controlCharacter (c :: rest))
    else skipString rest
termination_by cs => cs.length
decreasing_by
  · simp only [List.length_drop, List.length_cons]
    omega
  · simp

end NativeBindings.Json
