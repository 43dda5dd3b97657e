import NativeBindings.Binary64.Shortest

set_option autoImplicit false
set_option relaxedAutoImplicit false

/-!
The written forms of doubles: positional with the shortest digits, scientific outside a middle
range, and with a fixed number of places.
-/

namespace NativeBindings.Binary64

def zeros (n : Nat) : List Char := List.replicate n '0'

def signText (negative : Bool) : String := if negative then "-" else ""

/-- Digits with the point at a place counted from the first of them; a number without fractional
digits ends in `whole`. -/
def positional (digits : List Char) (point : Int) (whole : String) : String :=
  match point with
  | .negSucc n => "0." ++ String.ofList (zeros (n + 1) ++ digits)
  | .ofNat 0 => "0." ++ String.ofList digits
  | .ofNat n =>
    if digits.length ≤ n then String.ofList (digits ++ zeros (n - digits.length)) ++ whole
    else String.ofList (digits.take n) ++ "." ++ String.ofList (digits.drop n)

/-- The text of a finite or infinite number, given the text of a positive finite one. -/
def textWith (positive : Nat → String) (zero : String) : Binary64 → String
  | nan => "NaN"
  | infinite s => signText s ++ "inf"
  | finite s 0 => signText s ++ zero
  | finite s (u + 1) => signText s ++ positive (u + 1)

/-- The shortest digits in positional notation, never with an exponent, a whole number ending in
`whole`. A tie goes up. -/
def positionalText (whole : String) : Binary64 → String :=
  textWith (fun u =>
    let (digits, point) := (shortest .up u).scientific
    positional digits point whole)
    ("0" ++ whole)

def pointText : Binary64 → String := positionalText ".0"

def exponentText (e : Int) : String := if 0 ≤ e then "+" ++ toString e else toString e

def exponential (digits : List Char) (point : Int) : String :=
  let mantissa := match digits with
    | [] => ""
    | [d] => String.ofList [d]
    | d :: rest => String.ofList (d :: '.' :: rest)
  mantissa ++ "e" ++ exponentText (point - 1)

/-- Positional with a point from `0.00001` up to sixteen digits before the point, and scientific
outside that range. A tie goes to the even digit. -/
def rangedText : Binary64 → String :=
  textWith (fun u =>
    let (digits, point) := (shortest .even u).scientific
    if -5 < point ∧ point ≤ 16 then positional digits point ".0" else exponential digits point)
    "0.0"

/-- The exact value rounded to a fixed number of places, a tie to the even digit. -/
def fixedText (places : Nat) : Binary64 → String
  | nan => "NaN"
  | infinite s => signText s ++ "inf"
  | finite s u =>
    let scaled := divHalfEven (u * Nat.pow 10 places) unitsPerOne
    let digits := Nat.toDigits 10 scaled
    let padded := zeros (places + 1 - digits.length) ++ digits
    let whole := padded.take (padded.length - places)
    let fraction := padded.drop (padded.length - places)
    signText s ++ String.ofList whole ++ "." ++ String.ofList fraction

end NativeBindings.Binary64
