import NativeBindings.Text.Digit

set_option autoImplicit false
set_option relaxedAutoImplicit false

/-!
TOML strings. The extent of a string is found first; its body is decoded afterwards, so that a
string whose body is faulty still has an end.
-/

namespace NativeBindings.Toml

def isBlank (c : Char) : Bool := c == ' ' || c == '\t'

def skipBlank (cs : List Char) : List Char := cs.dropWhile isBlank

def isControl (c : Char) : Bool := c != '\t' && (decide (c.toNat < 32) || c == '\x7f')

/-- The body of a string, whether it is closed, and the text behind it. -/
structure Quotation where
  body : List Char
  closed : Bool
  rest : List Char

def Quotation.cons (c : Char) (q : Quotation) : Quotation := { q with body := c :: q.body }

/-- Finds the end of a basic string after its opening quote. It lies on the same line. -/
def spanBasic : List Char → Quotation
  | [] => ⟨[], false, []⟩
  | '"' :: rest => ⟨[], true, rest⟩
  | '\n' :: rest => ⟨[], false, '\n' :: rest⟩
  | '\\' :: '"' :: rest => ((spanBasic rest).cons '"').cons '\\'
  | '\\' :: '\\' :: rest => ((spanBasic rest).cons '\\').cons '\\'
  | c :: rest => (spanBasic rest).cons c

/-- Finds the end of a literal string after its opening quote. It lies on the same line. -/
def spanLiteral : List Char → Quotation
  | [] => ⟨[], false, []⟩
  | '\'' :: rest => ⟨[], true, rest⟩
  | '\n' :: rest => ⟨[], false, '\n' :: rest⟩
  | c :: rest => (spanLiteral rest).cons c

/-- The end of a long string after three closing quotes: up to two more belong to its body. -/
def closeLong (quote : Char) (cs : List Char) : Quotation :=
  let extra := (cs.take 2).takeWhile (· == quote)
  ⟨extra, true, cs.drop extra.length⟩

def spanLongBasic : List Char → Quotation
  | [] => ⟨[], false, []⟩
  | '"' :: '"' :: '"' :: rest => closeLong '"' rest
  | '\\' :: '"' :: rest => ((spanLongBasic rest).cons '"').cons '\\'
  | '\\' :: '\\' :: rest => ((spanLongBasic rest).cons '\\').cons '\\'
  | c :: rest => (spanLongBasic rest).cons c

def spanLongLiteral : List Char → Quotation
  | [] => ⟨[], false, []⟩
  | '\'' :: '\'' :: '\'' :: rest => closeLong '\'' rest
  | c :: rest => (spanLongLiteral rest).cons c

def hexNumber? (digits : List Char) : Option Nat :=
  digits.foldlM (fun n c => (Text.hexDigit? c).map (n * 16 + ·)) 0

def codePoint? (count : Nat) (cs : List Char) : Option Char :=
  if (cs.take count).length = count then
    match hexNumber? (cs.take count) with
    | some n => if n.isValidChar then some (Char.ofNat n) else none
    | none => none
  else none

def letterEscapes : List (Char × Char) :=
  [('b', '\x08'), ('e', '\x1b'), ('f', '\x0c'), ('n', '\n'), ('r', '\r'), ('t', '\t'), ('"', '"'),
    ('\\', '\\')]

def codePointEscapes : List (Char × Nat) := [('x', 2), ('u', 4), ('U', 8)]

/-- The character of an escape after its backslash, and the number of characters used. -/
def readEscape? : List Char → Option (Char × Nat)
  | [] => none
  | c :: rest =>
    match letterEscapes.lookup c, codePointEscapes.lookup c with
    | some e, _ => some (e, 1)
    | none, some count => (codePoint? count rest).map (·, count + 1)
    | none, none => none

def skipWhite : List Char → List Char
  | [] => []
  | '\r' :: '\n' :: rest => skipWhite rest
  | c :: rest => if isBlank c || c == '\n' then skipWhite rest else c :: rest

private theorem length_skipWhite_le (cs : List Char) : (skipWhite cs).length ≤ cs.length := by
  fun_induction skipWhite cs with
  | case1 => simp
  | case2 rest ih =>
    simp only [List.length_cons]
    omega
  | case3 c rest h hb ih =>
    simp only [List.length_cons]
    omega
  | case4 => simp

def atLineEnd : List Char → Bool
  | '\n' :: _ => true
  | '\r' :: '\n' :: _ => true
  | _ => false

/-- The value of the body of a basic string. In a long one lines may end, and a backslash at the end
of a line swallows the white space behind it. -/
def decodeBasic? (long : Bool) : List Char → Option (List Char)
  | [] => some []
  | c :: rest =>
    if c = '\\' then
      if long && atLineEnd (skipBlank rest) then decodeBasic? long (skipWhite rest)
      else
        match readEscape? rest with
        | some (e, used) => (decodeBasic? long (rest.drop used)).map (e :: ·)
        | none => none
    else if isControl c && !(long && atLineEnd (c :: rest)) then none
    else (decodeBasic? long rest).map (c :: ·)
termination_by cs => cs.length
decreasing_by
  · have := length_skipWhite_le rest
    simp only [List.length_cons]
    omega
  · simp only [List.length_drop, List.length_cons]
    omega
  · simp

def decodeLiteral? (long : Bool) : List Char → Option (List Char)
  | [] => some []
  | c :: rest =>
    if isControl c && !(long && atLineEnd (c :: rest)) then none
    else (decodeLiteral? long rest).map (c :: ·)

def dropFirstLineEnd : List Char → List Char
  | '\n' :: rest => rest
  | '\r' :: '\n' :: rest => rest
  | cs => cs

def Quotation.value? (q : Quotation) (decode : List Char → Option (List Char)) : Option String :=
  if q.closed then (decode q.body).map String.ofList else none

def opensLong : List Char → Bool
  | '"' :: '"' :: '"' :: _ => true
  | '\'' :: '\'' :: '\'' :: _ => true
  | _ => false

/-- Reads a string at its opening quote: its value, if it has one, and the text behind it. -/
def readText? : List Char → Option (Option String × List Char)
  | '"' :: '"' :: '"' :: rest =>
    let q := spanLongBasic (dropFirstLineEnd rest)
    some (q.value? (decodeBasic? true), q.rest)
  | '\'' :: '\'' :: '\'' :: rest =>
    let q := spanLongLiteral (dropFirstLineEnd rest)
    some (q.value? (decodeLiteral? true), q.rest)
  | '"' :: rest => some ((spanBasic rest).value? (decodeBasic? false), (spanBasic rest).rest)
  | '\'' :: rest =>
    some ((spanLiteral rest).value? (decodeLiteral? false), (spanLiteral rest).rest)
  | _ => none

end NativeBindings.Toml
