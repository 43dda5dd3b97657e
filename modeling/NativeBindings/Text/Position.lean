set_option autoImplicit false
set_option relaxedAutoImplicit false

/-!
Places in a text, as byte offsets and as lines and columns.
-/

namespace NativeBindings.Text

def byteCount : List Char → Nat
  | [] => 0
  | c :: cs => c.utf8Size + byteCount cs

@[simp] theorem byteCount_nil : byteCount [] = 0 := rfl

@[simp] theorem byteCount_cons (c : Char) (cs : List Char) :
    byteCount (c :: cs) = c.utf8Size + byteCount cs := rfl

@[simp] theorem byteCount_append (xs ys : List Char) :
    byteCount (xs ++ ys) = byteCount xs + byteCount ys := by
  induction xs with
  | nil => simp
  | cons c xs ih => simp [ih, Nat.add_assoc]

def newline : UInt8 := 10

def bytes (s : String) : List UInt8 := s.toUTF8.toList

/-- A line, counted from one, and the number of bytes before a place on it. -/
structure LineColumn where
  line : Nat
  column : Nat
  deriving DecidableEq

def LineColumn.after (before : List UInt8) : LineColumn :=
  ⟨before.count newline + 1, (before.reverse.takeWhile (· ≠ newline)).length⟩

def lines : List UInt8 → List (List UInt8)
  | [] => []
  | b :: rest =>
    if b = newline then [b] :: lines rest
    else
      match lines rest with
      | [] => [[b]]
      | l :: ls => (b :: l) :: ls

/-- The offset of a place among the lines that begin at `start`, `line` lines ahead; places beyond
the end of the text are drawn back to it. -/
def offsetFrom (column total : Nat) : List (List UInt8) → Nat → Nat → Nat
  | [], _, _ => total
  | _ :: _, 0, start => min (start + (column - 1)) total
  | l :: ls, line + 1, start => offsetFrom column total ls line (start + l.length)

/-- The byte offset of a place whose line and column are counted from one. There is no line zero. -/
def offsetOf? (text : List UInt8) (line column : Nat) : Option Nat :=
  match line with
  | 0 => none
  | line + 1 => some (offsetFrom column text.length (lines text) line 0)

end NativeBindings.Text
