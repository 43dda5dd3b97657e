import NativeBindings.Text.Digit

set_option autoImplicit false
set_option relaxedAutoImplicit false

/-!
The dates and times of TOML. Only whether a text is one matters, not which one it is.
-/

namespace NativeBindings.Toml

def fixedDigits? (count : Nat) (cs : List Char) : Option (Nat × List Char) :=
  let digits := cs.take count
  if digits.length = count ∧ digits.all Char.isDigit then
    some (Text.ofDigits 10 digits, cs.drop count)
  else none

def expect? (c : Char) : List Char → Option (List Char)
  | [] => none
  | d :: rest => if d = c then some rest else none

def isLeapYear (year : Nat) : Bool :=
  year % 4 = 0 && (year % 100 != 0 || year % 400 = 0)

def daysIn (year month : Nat) : Nat :=
  if month = 2 then (if isLeapYear year then 29 else 28)
  else if month = 4 ∨ month = 6 ∨ month = 9 ∨ month = 11 then 30
  else 31

def takeDate? (cs : List Char) : Option (List Char) := do
  let (year, cs) ← fixedDigits? 4 cs
  let (month, cs) ← fixedDigits? 2 (← expect? '-' cs)
  let (day, cs) ← fixedDigits? 2 (← expect? '-' cs)
  if 1 ≤ month ∧ month ≤ 12 ∧ 1 ≤ day ∧ day ≤ daysIn year month then some cs else none

def takeSecondFraction? : List Char → Option (List Char)
  | '.' :: c :: rest => if c.isDigit then some (rest.dropWhile Char.isDigit) else none
  | ['.'] => none
  | cs => some cs

def takeSeconds? : List Char → Option (List Char)
  | ':' :: rest =>
    match fixedDigits? 2 rest with
    | some (second, after) => if second ≤ 60 then takeSecondFraction? after else none
    | none => none
  | cs => some cs

def takeTime? (cs : List Char) : Option (List Char) := do
  let (hour, cs) ← fixedDigits? 2 cs
  let (minute, cs) ← fixedDigits? 2 (← expect? ':' cs)
  if hour ≤ 23 ∧ minute ≤ 59 then takeSeconds? cs else none

def isOffset (cs : List Char) : Bool :=
  match cs with
  | [] => true
  | ['Z'] => true
  | ['z'] => true
  | c :: rest =>
    (c == '+' || c == '-') &&
      (match fixedDigits? 2 rest with
      | some (hour, ':' :: after) =>
        match fixedDigits? 2 after with
        | some (minute, []) => decide (hour ≤ 23) && decide (minute ≤ 59)
        | _ => false
      | _ => false)

def isDateMark (c : Char) : Bool := c == 'T' || c == 't' || c == ' '

/-- A date, a time, or a date with a time and its distance from universal time. -/
def isDate (cs : List Char) : Bool :=
  match takeDate? cs with
  | some [] => true
  | some (c :: rest) =>
    isDateMark c && (match takeTime? rest with
      | some after => isOffset after
      | none => false)
  | none => takeTime? cs == some []

end NativeBindings.Toml
