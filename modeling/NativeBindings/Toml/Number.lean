import NativeBindings.Binary64
import NativeBindings.Text.Digit
import NativeBindings.Toml.Scalar
import NativeBindings.Word

set_option autoImplicit false
set_option relaxedAutoImplicit false

/-!
The numbers of TOML. A number is accepted for its form before it is read. The form of an integer is
judged loosely, so that some texts are accepted and cannot be read.
-/

namespace NativeBindings.Toml

structure Magnitude where
  negative : Bool
  body : List Char

def Magnitude.ofText : List Char → Magnitude
  | '+' :: rest => ⟨false, rest⟩
  | '-' :: rest => ⟨true, rest⟩
  | cs => ⟨false, cs⟩

def Magnitude.apply (m : Magnitude) (digits : List Char) : Int :=
  if m.negative then -(Text.ofDigits 10 digits : Int) else Text.ofDigits 10 digits

/-- Every underscore stands between two digits; the flag tells whether a digit stands in front of
the text. -/
def underscoresBetween (isDigit : Char → Bool) : Bool → List Char → Bool
  | _, [] => true
  | behindDigit, c :: rest =>
    if c = '_' then
      behindDigit && (rest.head?.map isDigit).getD false && underscoresBetween isDigit false rest
    else underscoresBetween isDigit (isDigit c) rest

def dropUnderscores (cs : List Char) : List Char := cs.filter (· != '_')

def integerScalar (n : Int) : Scalar :=
  if fitsSigned 128 n ∨ fitsUnsigned 128 n then .integer n else .unreadable

/-- Accepts an integer in a base that its prefix names. One without digits cannot be read. -/
def basedInteger? (base : Nat) (isDigit : Char → Bool) (cs : List Char) : Option Scalar :=
  if cs.all (fun c => isDigit c || c == '_') && underscoresBetween isDigit false cs then
    match dropUnderscores cs with
    | [] => some .unreadable
    | digits => some (integerScalar (Text.ofDigits base digits))
  else none

def hasNeedlessZero : List Char → Bool
  | '0' :: _ :: _ => true
  | _ => false

/-- Accepts a decimal integer. One with other characters than digits cannot be read. -/
def decimalInteger? (m : Magnitude) : Option Scalar :=
  if hasNeedlessZero m.body || !underscoresBetween Text.isHexDigit false m.body then none
  else
    let digits := dropUnderscores m.body
    some (if digits.all Char.isDigit then integerScalar (m.apply digits) else .unreadable)

def isDigitOrUnderscore (c : Char) : Bool := c.isDigit || c == '_'

def takeDigits? (cs : List Char) : Option (List Char × List Char) :=
  let digits := dropUnderscores (cs.takeWhile isDigitOrUnderscore)
  if digits.isEmpty then none else some (digits, cs.dropWhile isDigitOrUnderscore)

def takeFraction? : List Char → Option (List Char × List Char)
  | '.' :: rest => takeDigits? rest
  | cs => some ([], cs)

def isExponentLetter (c : Char) : Bool := c == 'e' || c == 'E'

def takeExponent? : List Char → Option (Int × List Char)
  | [] => some (0, [])
  | c :: rest =>
    if isExponentLetter c then
      let m := Magnitude.ofText rest
      (takeDigits? m.body).map fun p => (m.apply p.1, p.2)
    else some (0, c :: rest)

def floatScalar (negative : Bool) (whole fraction : List Char) (exponent : Int) : Scalar :=
  let digits := Text.ofDigits 10 (whole ++ fraction)
  let x := Binary64.ofDecimal negative digits (exponent - fraction.length)
  if x.isInfinite then .unreadable else .float x

def wholeIsPlain (m : Magnitude) (whole : List Char) : Bool :=
  !(m.body.head? == some '0' && hasNeedlessZero whole)

def decimalFloat? (m : Magnitude) : Option Scalar := do
  let (whole, cs) ← takeDigits? m.body
  let (fraction, cs) ← takeFraction? cs
  let (exponent, cs) ← takeExponent? cs
  if cs.isEmpty && wholeIsPlain m whole && underscoresBetween Char.isDigit false m.body then
    some (floatScalar m.negative whole fraction exponent)
  else none

def isFloatMark (c : Char) : Bool := c == '.' || isExponentLetter c

def decimal? (cs : List Char) : Option Scalar :=
  let m := Magnitude.ofText cs
  match m.body.dropWhile Char.isDigit with
  | [] => if m.body.isEmpty then none else decimalInteger? m
  | c :: rest =>
    if (c :: rest).contains ' ' then none
    else if (c :: rest).any isFloatMark then decimalFloat? m
    else if c = '_' then decimalInteger? m
    else none

def wordFloat? (cs : List Char) : Option Scalar :=
  let m := Magnitude.ofText cs
  if m.body = "inf".toList then some (.float (.infinite m.negative))
  else if m.body = "nan".toList then some (.float .nan)
  else none

end NativeBindings.Toml
