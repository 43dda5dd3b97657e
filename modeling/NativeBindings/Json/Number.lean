import NativeBindings.Json.Fault
import NativeBindings.Text.Digit

set_option autoImplicit false
set_option relaxedAutoImplicit false

/-!
JSON numbers. Whole numbers of 64 bits are kept; any other number becomes a double, computed from
the leading digits that fit 64 bits and one multiplication or division by a power of ten.
-/

namespace NativeBindings.Json

inductive Numeral where
  | natural (n : Nat)
  | negative (n : Nat)
  | float (x : Binary64)

def signedNumeral (negative : Bool) (n : Nat) : Numeral :=
  if negative then
    if n = 0 ∨ Nat.pow 2 63 < n then .float (Binary64.ofNat n).neg else .negative n
  else .natural n

/-- Takes digits into a significand as long as it fits 64 bits; gives the digits left over. -/
def takeFitting (significand : Nat) : List Char → Nat × List Char
  | [] => (significand, [])
  | c :: rest =>
    let next := significand * 10 + Text.digitValue c
    if next < Nat.pow 2 64 then takeFitting next rest else (significand, c :: rest)

def powTenUnits (e : Nat) : Nat := Binary64.roundUnits (Nat.pow 10 e * Binary64.unitsPerOne) 1

def scaleDown (x : Binary64) (e : Nat) : Binary64 :=
  if e ≤ 308 then x.divUnits (powTenUnits e)
  else if x.isZero then x
  else scaleDown (x.divUnits (powTenUnits 308)) (e - 308)
termination_by e

def ofParts? (negative : Bool) (significand : Nat) (exponent : Int) : Option Binary64 :=
  let x := Binary64.ofNat significand
  let magnitude := match exponent with
    | .ofNat e =>
      if x.isZero then x
      else if 308 < e then .infinite false
      else x.mulUnits (powTenUnits e)
    | .negSucc e => scaleDown x (e + 1)
  if magnitude.isInfinite then none
  else some (if negative then magnitude.neg else magnitude)

/-- The double of a significand and a decimal exponent, with the text behind it. -/
def readParts (negative : Bool) (significand : Nat) (exponent : Int) (rest : List Char) :
    Except Fault (Numeral × List Char) :=
  match ofParts? negative significand exponent with
  | some x => .ok (.float x, rest)
  | none => .error (.here .numberOutOfRange rest)

def readExponentDigits (value : Nat) : List Char → Nat × List Char
  | [] => (value, [])
  | c :: rest =>
    if c.isDigit && decide (value < Nat.pow 2 31) then
      readExponentDigits (value * 10 + Text.digitValue c) rest
    else (value, c :: rest)

def exponentSign : List Char → Bool × List Char
  | '+' :: rest => (false, rest)
  | '-' :: rest => (true, rest)
  | cs => (false, cs)

def readExponent (negative : Bool) (significand : Nat) (start : Int) (cs : List Char) :
    Except Fault (Numeral × List Char) :=
  let (small, digits) := exponentSign cs
  match digits with
  | [] => .error (.here .endInValue [])
  | c :: rest =>
    if c.isDigit then
      let (value, after) := readExponentDigits (Text.digitValue c) rest
      if value < Nat.pow 2 31 then
        readParts negative significand (if small then start - value else start + value) after
      else if significand ≠ 0 ∧ small = false then
        .error (.here .numberOutOfRange after)
      else .ok (.float (.finite negative 0), after.dropWhile Char.isDigit)
    else .error (.next .invalidNumber (c :: rest))

def readScaled (negative : Bool) (significand : Nat) (exponent : Int) :
    List Char → Except Fault (Numeral × List Char)
  | [] => readParts negative significand exponent []
  | c :: rest =>
    if c = 'e' ∨ c = 'E' then readExponent negative significand exponent rest
    else readParts negative significand exponent (c :: rest)

def readFraction (negative : Bool) (significand : Nat) (exponent : Int) (cs : List Char) :
    Except Fault (Numeral × List Char) :=
  let digits := cs.takeWhile Char.isDigit
  let after := cs.dropWhile Char.isDigit
  let (value, dropped) := takeFitting significand digits
  match digits, after with
  | [], [] => .error (.here .endInValue [])
  | [], c :: rest => .error (.next .invalidNumber (c :: rest))
  | _ :: _, _ =>
    readScaled negative value (exponent - (digits.length - dropped.length : Nat)) after

def readTail (negative : Bool) (significand : Nat) (dropped : Nat) :
    List Char → Except Fault (Numeral × List Char)
  | '.' :: rest => readFraction negative significand dropped rest
  | cs =>
    if dropped = 0 ∧ cs.head? ≠ some 'e' ∧ cs.head? ≠ some 'E' then
      .ok (signedNumeral negative significand, cs)
    else readScaled negative significand dropped cs

def readMagnitude (negative : Bool) : List Char → Except Fault (Numeral × List Char)
  | [] => .error (.here .endInValue [])
  | c :: rest =>
    if c = '0' then
      if rest.head?.any Char.isDigit then .error (.next .invalidNumber rest)
      else readTail negative 0 0 rest
    else if c.isDigit then
      let (value, dropped) := takeFitting (Text.digitValue c) (rest.takeWhile Char.isDigit)
      readTail negative value dropped.length (rest.dropWhile Char.isDigit)
    else .error (.next .invalidNumber (c :: rest))

def readNumber : List Char → Except Fault (Numeral × List Char)
  | '-' :: rest => readMagnitude true rest
  | cs => readMagnitude false cs

def skipExponent (cs : List Char) : Except Fault (List Char) :=
  match (exponentSign cs).2 with
  | [] => .error (.here .invalidNumber [])
  | c :: rest =>
    if c.isDigit then .ok (rest.dropWhile Char.isDigit)
    else .error (.next .invalidNumber (c :: rest))

def skipScaled : List Char → Except Fault (List Char)
  | [] => .ok []
  | c :: rest => if c = 'e' ∨ c = 'E' then skipExponent rest else .ok (c :: rest)

def skipTail : List Char → Except Fault (List Char)
  | '.' :: rest =>
    if rest.head?.any Char.isDigit then skipScaled (rest.dropWhile Char.isDigit)
    else .error (.next .invalidNumber rest)
  | cs => skipScaled cs

def skipMagnitude : List Char → Except Fault (List Char)
  | [] => .error (.here .invalidNumber [])
  | c :: rest =>
    if c = '0' then
      if rest.head?.any Char.isDigit then .error (.next .invalidNumber rest)
      else skipTail rest
    else if c.isDigit then skipTail (rest.dropWhile Char.isDigit)
    else .error (.next .invalidNumber (c :: rest))

def skipNumber : List Char → Except Fault (List Char)
  | '-' :: rest => skipMagnitude rest
  | cs => skipMagnitude cs

end NativeBindings.Json
