import NativeBindings.Diagnostic
import NativeBindings.Text.Position
import NativeBindings.Text.Width

set_option autoImplicit false
set_option relaxedAutoImplicit false

/-!
Excerpts of source texts that show where a diagnostic points. A span inside one line is underlined
and its middle labelled; a span over several lines is bracketed in the margin. Lines are cut at
bytes: a span that begins or ends inside a character cannot be drawn, and the printer crashes.
-/

namespace NativeBindings.Excerpt

structure SourceLine where
  number : Nat
  start : Nat
  content : List Char

def endsLine (c : Char) : Bool :=
  c ∈ ['\n', '\r', '\x0b', '\x0c', '\u0085', '\u2028', '\u2029']

def extendFirst (c : Char) : List (List Char) → List (List Char)
  | [] => [[c]]
  | l :: ls => (c :: l) :: ls

def splitLines : List Char → List (List Char)
  | [] => []
  | '\r' :: '\n' :: rest => ['\r', '\n'] :: splitLines rest
  | c :: rest => if endsLine c then [c] :: splitLines rest else extendFirst c (splitLines rest)

def placeLines : Nat → Nat → List (List Char) → List SourceLine
  | _, _, [] => []
  | number, start, l :: ls =>
    ⟨number, start, l⟩ :: placeLines (number + 1) (start + Text.byteCount l) ls

def sourceLines (source : String) : List SourceLine :=
  match splitLines source.toList with
  | [] => [⟨1, 0, []⟩]
  | ls => placeLines 1 0 ls

def lineAt (offset : Nat) (current : SourceLine) : List SourceLine → SourceLine
  | [] => current
  | l :: ls => if l.start ≤ offset then lineAt offset l ls else current

/-- The number of characters in the first bytes of a line, if these end between two characters. -/
def charsBefore : Nat → List Char → Option Nat
  | 0, _ => some 0
  | _ + 1, [] => some 0
  | bytes + 1, c :: rest =>
    if c.utf8Size ≤ bytes + 1 then (charsBefore (bytes + 1 - c.utf8Size) rest).map (· + 1) else none

/-- A place in a text: its line, and the number of characters before it on that line. -/
structure Place where
  line : SourceLine
  column : Nat

def placeOn (lines : List SourceLine) (byte offset : Nat) : Option Place :=
  let line := lineAt byte ⟨1, 0, []⟩ lines
  (charsBefore (offset - line.start) line.content).map (⟨line, ·⟩)

def placeOf (lines : List SourceLine) (offset : Nat) : Option Place := placeOn lines offset offset

def endPlace (lines : List SourceLine) (start stop : Nat) : Option Place :=
  if stop ≤ start then placeOf lines start else placeOn lines (stop - 1) stop

def tabWidth : Nat := 4

def columnsAt (column : Nat) (c : Char) : Nat :=
  if c = '\t' then tabWidth - column % tabWidth else Text.width c

def shownChar (column : Nat) (c : Char) : List Char :=
  if c = '\t' ∨ Text.isBlank c then List.replicate (columnsAt column c) ' ' else [c]

def shownFrom : Nat → List Char → List Char
  | _, [] => []
  | column, c :: rest => shownChar column c ++ shownFrom (column + 1) rest

def visible (l : SourceLine) : List Char := Text.trimEnd l.content

def shownText (l : SourceLine) : String := String.ofList (shownFrom 0 (visible l))

/-- A cell of a label row: its first character and the one that fills a wide cell. -/
structure Cell where
  first : Char
  fill : Char

def Cell.draw (cell : Cell) : Nat → List Char
  | 0 => []
  | width + 1 => cell.first :: List.replicate width cell.fill

def drawRow (cell : Nat → Cell) : Nat → Nat → List Char → List Char
  | 0, _, _ => []
  | count + 1, column, [] => (cell column).draw 1 ++ drawRow cell count (column + 1) []
  | count + 1, column, c :: rest =>
    (cell column).draw (columnsAt column c) ++ drawRow cell count (column + 1) rest

def blanks (n : Nat) : String := String.ofList (List.replicate n ' ')

def bar (n : Nat) : String := String.ofList (List.replicate n '─')

def arrowEnd : Nat := 2

def underlineCell (start stop middle column : Nat) : Cell :=
  if start ≤ column ∧ column < stop then
    if column = middle then ⟨'┬', '─'⟩ else ⟨'─', '─'⟩
  else if column = middle then ⟨'│', ' '⟩ else ⟨' ', ' '⟩

def leaderCell (middle column : Nat) : Cell :=
  if column = middle then ⟨'╰', '─'⟩
  else if middle < column then ⟨'─', '─'⟩
  else ⟨' ', ' '⟩

def numberWidth (last : SourceLine) : Nat := (Nat.toDigits 10 last.number).length

def numberedMargin (width : Nat) (l : SourceLine) : String :=
  " " ++ blanks (width - (Nat.toDigits 10 l.number).length) ++ l.number.repr ++ " │ "

def margin (width : Nat) : String := blanks (width + 2) ++ "│ "

def singleLine (width : Nat) (line : SourceLine) (start stop : Nat) (message : String) :
    List String :=
  let middle := (start + stop) / 2
  let row (cell : Nat → Cell) : String :=
    margin width ++ String.ofList (drawRow cell (stop + arrowEnd) 0 (visible line))
  [numberedMargin width line ++ shownText line, row (underlineCell start stop middle),
    row (leaderCell middle) ++ " " ++ message]

def ellipsis (width : Nat) (between : Bool) : List String :=
  if between then [blanks (width + 2) ++ "┆ ┆   "] else []

def severalLines (width : Nat) (first last : SourceLine) (message : String) : List String :=
  let row (cell : Cell) : String :=
    String.ofList (drawRow (fun _ => cell) (last.content.length + arrowEnd) 0 (visible last))
  [numberedMargin width first ++ "╭─▶ " ++ shownText first] ++
    ellipsis width (decide (first.number + 1 < last.number)) ++
    [numberedMargin width last ++ "├─▶ " ++ shownText last,
      margin width ++ "│   " ++ row ⟨' ', ' '⟩,
      margin width ++ "╰───" ++ row ⟨'─', '─'⟩ ++ " " ++ message]

def heading : Severity → String
  | .error => "Error"
  | .warning => "Warning"

def shownCode (code : String) : String := code ++ blanks (2 - code.length)

def headline (d : Diagnostic) : String :=
  "[" ++ shownCode d.code ++ "] " ++ heading d.severity ++ ": " ++ d.message

def framedRows (d : Diagnostic) (first last : Place) : List String :=
  let width := numberWidth last.line
  [blanks (width + 2) ++ "╭─[ " ++ d.file ++ ":" ++ first.line.number.repr ++ ":" ++
      (first.column + 1).repr ++ " ]",
    blanks (width + 2) ++ "│"] ++
    (if first.line.number = last.line.number then
      singleLine width first.line first.column last.column d.message
    else severalLines width first.line last.line d.message) ++
    [bar (width + 2) ++ "╯"]

/-- The rows below the headline for a span of a text, if it can be drawn. A span beyond the end of
the text is drawn back to it. -/
def rows (d : Diagnostic) (span : Span) (source : String) : Option (List String) := do
  let lines := sourceLines source
  let stop := min span.stop (Text.byteCount source.toList)
  let start := min span.start stop
  return framedRows d (← placeOf lines start) (← endPlace lines start stop)

def located (sources : Sources) (d : Diagnostic) : Option (Span × SourceFile) := do
  let span ← d.span
  let file ← sources.get? span.file
  return (span, file)

structure Shown where
  text : String
  complete : Bool

def unlines (rows : List String) : String := String.join (rows.map (· ++ "\n"))

/-- The report of a diagnostic: an excerpt, or its text where there is nothing to show. The headline
stands before anything is cut. -/
def report (sources : Sources) (d : Diagnostic) : Shown :=
  match located sources d with
  | none => ⟨unlines [d.text], true⟩
  | some (span, file) =>
    match rows d span file.text with
    | none => ⟨unlines [headline d], false⟩
    | some below => ⟨unlines (headline d :: below), true⟩

def reportAll (sources : Sources) : Sink → Shown
  | [] => ⟨"", true⟩
  | d :: rest =>
    let first := report sources d
    if first.complete then
      let others := reportAll sources rest
      ⟨first.text ++ others.text, others.complete⟩
    else first

end NativeBindings.Excerpt
