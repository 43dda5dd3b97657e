import NativeBindings.TypeExpr.Token

set_option autoImplicit false
set_option relaxedAutoImplicit false

/-!
What a refused type text should have held, and where. The grammar is matched with ordered choice,
and the phrases that failed at the furthest point are reported. A phrase stands for all the phrases
that failed inside it at its own beginning, unless exactly one did.
-/

namespace NativeBindings.TypeExpr.Expectation

/-- The named phrases of the grammar, in the order in which a report lists them. -/
inductive Phrase where
  | endOfInput
  | wholeType
  | type
  | atom
  | template
  | argument
  | extent
  | modifier
  | pointer
  | reference
  | constWord
  | qualifiedName
  | identifier
  | number
  deriving DecidableEq

namespace Phrase

def label : Phrase → String
  | endOfInput => "EOI"
  | wholeType => "native_ty"
  | type => "ty"
  | atom => "atom"
  | template => "template"
  | argument => "targ"
  | extent => "extent"
  | modifier => "modifier"
  | pointer => "ptr"
  | reference => "reference"
  | constWord => "kw_const"
  | qualifiedName => "qident"
  | identifier => "ident"
  | number => "number"

def all : List Phrase :=
  [endOfInput, wholeType, type, atom, template, argument, extent, modifier, pointer, reference,
    constWord, qualifiedName, identifier, number]

/-- Words hold no blanks inside; in all other phrases blanks stand freely between the parts. -/
def isWord : Phrase → Bool
  | constWord | qualifiedName | identifier | number => true
  | _ => false

end Phrase

/-- A pattern of the grammar, matched without giving back what it took. -/
inductive Pattern where
  | one (accepts : Char → Bool)
  | text (cs : List Char)
  | finish
  | notAhead (accepts : Char → Bool)
  | both (first second : Pattern)
  | either (first second : Pattern)
  | optional (inner : Pattern)
  | many (inner : Pattern)
  | phrase (p : Phrase)

def Phrase.body : Phrase → Pattern
  | endOfInput => .finish
  | wholeType => .both (.text []) (.both (.phrase type) (.phrase endOfInput))
  | type =>
    .both (.optional (.phrase constWord))
      (.both (.phrase atom) (.both (.optional (.phrase extent)) (.many (.phrase modifier))))
  | atom => .either (.phrase template) (.phrase qualifiedName)
  | template =>
    .both (.phrase qualifiedName) (.both (.text ['<']) (.both (.phrase argument)
      (.both (.many (.both (.text [',']) (.phrase argument))) (.text ['>']))))
  | argument => .either (.phrase number) (.phrase type)
  | extent => .both (.text ['[']) (.both (.optional (.phrase number)) (.text [']']))
  | modifier => .either (.phrase pointer) (.either (.phrase reference) (.phrase constWord))
  | pointer => .text ['*']
  | reference => .text ['&']
  | constWord => .both (.text ['c', 'o', 'n', 's', 't']) (.notAhead isIdentChar)
  | qualifiedName =>
    .both (.phrase identifier) (.many (.both (.text [':', ':']) (.phrase identifier)))
  | identifier => .both (.one isIdentStart) (.many (.one isIdentChar))
  | number => .both (.one Char.isDigit) (.many (.one Char.isDigit))

/-- A place in a text: what is left of it and how many characters came before. -/
structure Place where
  rest : List Char
  column : Nat

/-- The furthest column at which a phrase failed, and the phrases that failed there, newest
first. -/
structure Trace where
  furthest : Nat
  failed : List Phrase

namespace Trace

def countAt (t : Trace) (column : Nat) : Nat :=
  if t.furthest = column then t.failed.length else 0

/-- Records that `p` failed at `column`, where `before` is the trace from before it was tried. -/
def record (p : Phrase) (column : Nat) (before after : Trace) : Trace :=
  if after.countAt column = before.countAt column + 1 then
    after
  else if after.furthest = column then
    { after with failed := p :: after.failed.drop (after.failed.length - before.countAt column) }
  else if after.furthest < column then
    { furthest := column, failed := [p] }
  else
    after

end Trace

def skipBlanks (spaced : Bool) (place : Place) : Place :=
  if spaced then
    { rest := place.rest.dropWhile isBlank
      column := place.column + (place.rest.takeWhile isBlank).length }
  else
    place

/-- Matches a pattern at a place: the place behind it, if it matches, and the trace of failures.
`fuel` bounds the nesting of the match. -/
def Pattern.run : Nat → Bool → Pattern → Place → Trace → Option Place × Trace
  | 0, _, _, _, trace => (none, trace)
  | fuel + 1, spaced, pattern, place, trace =>
    match pattern with
    | .one accepts =>
      match place.rest with
      | c :: rest => if accepts c then (some ⟨rest, place.column + 1⟩, trace) else (none, trace)
      | [] => (none, trace)
    | .text cs =>
      if cs.isPrefixOf place.rest then
        (some ⟨place.rest.drop cs.length, place.column + cs.length⟩, trace)
      else
        (none, trace)
    | .finish => (if place.rest.isEmpty then some place else none, trace)
    | .notAhead accepts =>
      (if (place.rest.head?.map accepts).getD false then none else some place, trace)
    | .both first second =>
      match Pattern.run fuel spaced first place trace with
      | (some middle, trace) => Pattern.run fuel spaced second (skipBlanks spaced middle) trace
      | (none, trace) => (none, trace)
    | .either first second =>
      match Pattern.run fuel spaced first place trace with
      | (some next, trace) => (some next, trace)
      | (none, trace) => Pattern.run fuel spaced second place trace
    | .optional inner =>
      match Pattern.run fuel spaced inner place trace with
      | (some next, trace) => (some next, trace)
      | (none, trace) => (some place, trace)
    | .many inner =>
      match Pattern.run fuel spaced inner place trace with
      | (some next, trace) =>
        let again := skipBlanks spaced next
        match Pattern.run fuel spaced (.many inner) again trace with
        | (some last, trace) => (some (if last.column = again.column then next else last), trace)
        | (none, trace) => (some next, trace)
      | (none, trace) => (some place, trace)
    | .phrase p =>
      match Pattern.run fuel (!p.isWord) p.body place trace with
      | (some next, trace) => (some next, trace)
      | (none, after) => (none, if spaced then trace.record p place.column after else after)

/-- Where a text stops being a type, and the phrases that could have stood there. -/
structure Report where
  column : Nat
  expected : List Phrase

def report (cs : List Char) : Report :=
  let start : Place := ⟨cs, 0⟩
  let trace : Trace := ⟨0, []⟩
  let furthest := (Pattern.run (64 * (cs.length + 2)) true (.phrase .wholeType) start trace).2
  { column := furthest.furthest, expected := Phrase.all.filter (furthest.failed.contains ·) }

def enumeration : List Phrase → String
  | [] => ""
  | [a] => a.label
  | [a, b] => a.label ++ " or " ++ b.label
  | phrases =>
    ", ".intercalate (phrases.dropLast.map Phrase.label) ++ ", or " ++
      ((phrases.getLast?.map Phrase.label).getD "")

def firstLine (cs : List Char) : List Char :=
  cs.takeWhile (· ≠ '\n') ++ (cs.dropWhile (· ≠ '\n')).take 1

def isLineEnd (c : Char) : Bool := c == '\n' || c == '\r'

def picture : Char → Char
  | '\n' => '␊'
  | '\r' => '␍'
  | c => c

/-- The first line of a text as a report shows it: with pictures for line ends where the text stops
being a type at one of them, and without line ends otherwise. -/
def Report.shownLine (r : Report) (cs : List Char) : List Char :=
  if (cs[r.column]?.map isLineEnd).getD false then (firstLine cs).map picture
  else (firstLine cs).filter fun c => !isLineEnd c

/-- The report on a text: the line, a caret under the column, and what was expected. -/
def Report.message (r : Report) (cs : List Char) : String :=
  let line := r.shownLine cs
  let margin := (line.take r.column).map fun c => if c = '\t' then '\t' else ' '
  " --> 1:" ++ (r.column + 1).repr ++ "\n  |\n1 | " ++ String.ofList line ++
    "\n  | " ++ String.ofList margin ++ "^---\n  |\n  = expected " ++ enumeration r.expected

end NativeBindings.TypeExpr.Expectation
