import NativeBindings.Binary64.Text
import NativeBindings.Generation.Execute

set_option autoImplicit false
set_option relaxedAutoImplicit false

/-!
The lines that the program shows, with or without colours.
-/

namespace NativeBindings.Console

structure Environment where
  noColor : Option String
  forceColor : Option String
  term : Option String

def Environment.coloured (e : Environment) : Bool :=
  if e.noColor.isSome then false
  else
    match e.forceColor with
    | some force => force != "0"
    | none => e.term != some "dumb"

def reset : String := "\x1b[0m"

def bold : String := "\x1b[1m"

def dim : String := "\x1b[2m"

def red : String := "\x1b[31m"

def green : String := "\x1b[32m"

def yellow : String := "\x1b[33m"

def paint (coloured : Bool) (code text : String) : String :=
  if coloured then code ++ text ++ reset else text

def kilobyte : Nat := 1024

def megabyte : Nat := 1048576

def inUnits (bytes unit : Nat) : String :=
  ((Binary64.ofNat bytes).divUnits (unit * Binary64.unitsPerOne)).fixedText 1

def humanSize (bytes : Nat) : String :=
  if megabyte ≤ bytes then inUnits bytes megabyte ++ " MB"
  else if kilobyte ≤ bytes then inUnits bytes kilobyte ++ " KB"
  else bytes.repr ++ " B"

def writtenLine (coloured : Bool) (path : String) (functions bytes : Nat) : String :=
  paint coloured dim ("wrote " ++ path ++ "  (" ++ functions.repr ++ " functions, " ++
    humanSize bytes ++ ")")

def summaryLine (coloured : Bool) (r : Report) (seconds : String) : String :=
  paint coloured (bold ++ green)
    ("generated " ++ r.written.length.repr ++ " files, " ++ r.total.repr ++ " functions (" ++
      seconds ++ "s)" ++ (if 0 < r.skipped then ", " ++ r.skipped.repr ++ " skipped" else ""))

def durationText (seconds : Binary64) : String := seconds.fixedText 2

def errorLine (coloured : Bool) (message : String) : String := paint coloured red message

def warningLine (coloured : Bool) (message : String) : String := paint coloured yellow message

def usageLines : List String :=
  ["usage: aten-ffigen <output-dir> <spec-file>", "",
    "  <output-dir>   directory that receives the generated modules",
    "  <spec-file>    declaration list (.toml, or .json)"]

end NativeBindings.Console
