set_option autoImplicit false
set_option relaxedAutoImplicit false

/-!
Double precision numbers. A finite one is a whole number of units, the unit being the smallest
positive double; every operation computes the exact result first and then rounds it once, to the
nearest double, a tie going to the even neighbour.
-/

namespace NativeBindings

/-- A double precision number; a finite one counts units of `2 ^ (-1074)`. -/
inductive Binary64 where
  | nan
  | infinite (negative : Bool)
  | finite (negative : Bool) (units : Nat)
  deriving DecidableEq

namespace Binary64

def unitsPerOne : Nat := Nat.pow 2 1074

def unitsLimit : Nat := Nat.pow 2 2098

def divHalfEven (num den : Nat) : Nat :=
  let q := num / den
  let twice := 2 * (num % den)
  if twice < den then q
  else if den < twice then q + 1
  else if q % 2 = 0 then q else q + 1

def lostBits (units : Nat) : Nat := Nat.log2 units + 1 - 53

def roundUnits (num den : Nat) : Nat :=
  let scale := Nat.pow 2 (lostBits (num / den))
  divHalfEven num (den * scale) * scale

def ofUnitRatio (negative : Bool) (num den : Nat) : Binary64 :=
  let units := roundUnits num den
  if units < unitsLimit then .finite negative units else .infinite negative

def ofNat (n : Nat) : Binary64 := ofUnitRatio false (n * unitsPerOne) 1

def neg : Binary64 → Binary64
  | nan => nan
  | infinite s => infinite (!s)
  | finite s u => finite (!s) u

def isZero : Binary64 → Bool
  | finite _ 0 => true
  | _ => false

def isInfinite : Binary64 → Bool
  | infinite _ => true
  | _ => false

def divUnits (x : Binary64) (units : Nat) : Binary64 :=
  match x with
  | nan => nan
  | infinite s => infinite s
  | finite s u => ofUnitRatio s (u * unitsPerOne) units

def mulUnits (x : Binary64) (units : Nat) : Binary64 :=
  match x with
  | nan => nan
  | infinite s => infinite s
  | finite s u => ofUnitRatio s (u * units) unitsPerOne

def digitCount (n : Nat) : Nat := (Nat.toDigits 10 n).length

/-- The double nearest to `digits * 10 ^ exponent`. An exponent far outside the range of doubles
is decided by the number of digits alone. -/
def ofDecimal (negative : Bool) (digits : Nat) (exponent : Int) : Binary64 :=
  let top := exponent + digitCount digits
  if digits = 0 then .finite negative 0
  else if 310 < top then .infinite negative
  else if top < -330 then .finite negative 0
  else
    match exponent with
    | .ofNat e => ofUnitRatio negative (digits * Nat.pow 10 e * unitsPerOne) 1
    | .negSucc e => ofUnitRatio negative (digits * unitsPerOne) (Nat.pow 10 (e + 1))

end Binary64

end NativeBindings
