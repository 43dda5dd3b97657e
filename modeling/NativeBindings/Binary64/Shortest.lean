import NativeBindings.Binary64

set_option autoImplicit false
set_option relaxedAutoImplicit false

/-!
The fewest decimal digits that read back to a double, and of those the nearest to it.

A double stands for the interval of numbers that round to it. For each number of digits the two
neighbours of the value on the grid of that precision are tried; the first grid with a neighbour
inside the interval decides. A value in the middle between two neighbours goes to the even or to
the upper one, as a format has it.
-/

namespace NativeBindings.Binary64

structure Decimal where
  digits : Nat
  exponent : Int
  deriving DecidableEq

inductive Tie where
  | even
  | up

def Tie.takesUpper (tie : Tie) (lower : Nat) : Bool :=
  match tie with
  | even => lower % 2 = 1
  | up => true

/-- The numbers that round to a positive double, in quarters of a unit. -/
structure Interval where
  low : Nat
  high : Nat
  closed : Bool

/-- The interval of a positive unit count. Below a power of two the spacing halves. -/
def interval (units : Nat) : Interval :=
  let spacing := Nat.pow 2 (lostBits units)
  let below := if units = Nat.pow 2 (Nat.log2 units) ∧ 1 < spacing then spacing else 2 * spacing
  ⟨4 * units - below, 4 * units + 2 * spacing, units / spacing % 2 = 0⟩

def Interval.contains (i : Interval) (num den : Nat) : Bool :=
  if i.closed then i.low * den ≤ num && num ≤ i.high * den
  else i.low * den < num && num < i.high * den

def powTen : Int → Nat × Nat
  | .ofNat e => (Nat.pow 10 e, 1)
  | .negSucc e => (1, Nat.pow 10 (e + 1))

/-- The decimal point of a positive unit count stands after this many digits, counted from its
first digit. -/
def pointPosition (units : Nat) : Int :=
  (digitCount (units * Nat.pow 10 400 / unitsPerOne) : Int) - 400

/-- The grid point nearest to the value that lies in its interval, on the grid of
`10 ^ exponent`. -/
def nearestOnGrid (tie : Tie) (units : Nat) (exponent : Int) : Option Decimal :=
  let (up, down) := powTen exponent
  let inside (d : Nat) : Bool := (interval units).contains (4 * d * up * unitsPerOne) down
  let lower := units * down / (up * unitsPerOne)
  let twice := 2 * (units * down % (up * unitsPerOne))
  let upperNearer : Bool :=
    up * unitsPerOne < twice || (twice = up * unitsPerOne && tie.takesUpper lower)
  if inside lower && !(upperNearer && inside (lower + 1)) then some ⟨lower, exponent⟩
  else if inside (lower + 1) then some ⟨lower + 1, exponent⟩
  else none

def firstOnGrids (tie : Tie) (units : Nat) : Nat → Int → Decimal
  | 0, exponent => ⟨units * (powTen exponent).2 / ((powTen exponent).1 * unitsPerOne), exponent⟩
  | grids + 1, exponent =>
    match nearestOnGrid tie units exponent with
    | some d => d
    | none => firstOnGrids tie units grids (exponent - 1)

def shortest (tie : Tie) (units : Nat) : Decimal :=
  firstOnGrids tie units 17 (pointPosition units - 1)

/-- The digits of a decimal number without the zeros at their end, and the place of the point
counted from the first digit. -/
def Decimal.scientific (d : Decimal) : List Char × Int :=
  let digits := Nat.toDigits 10 d.digits
  ((digits.reverse.dropWhile (· == '0')).reverse, digits.length + d.exponent)

end NativeBindings.Binary64
