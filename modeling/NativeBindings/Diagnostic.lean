set_option autoImplicit false
set_option relaxedAutoImplicit false

/-!
Diagnostics, the sink that gathers them, and the files they point into.
-/

namespace NativeBindings

structure Span where
  file : Nat
  start : Nat
  stop : Nat
  start_le_stop : start ≤ stop
  deriving DecidableEq

def Span.ofBounds (file start stop : Nat) : Span := ⟨file, start, max stop start, by omega⟩

inductive Severity where
  | error
  | warning
  deriving DecidableEq

def Severity.word : Severity → String
  | error => "error"
  | warning => "warning"

structure Diagnostic where
  severity : Severity
  code : String
  file : String
  span : Option Span
  message : String

namespace Diagnostic

def placeText : Option Span → String
  | none => ""
  | some s => " @" ++ s.start.repr ++ ".." ++ s.stop.repr

def text (d : Diagnostic) : String :=
  "[" ++ d.severity.word ++ " " ++ d.code ++ "] " ++ d.file ++ placeText d.span ++ ": " ++ d.message

def isError (d : Diagnostic) : Bool := d.severity == .error

end Diagnostic

abbrev Sink : Type := List Diagnostic

def Sink.errorCount (sink : Sink) : Nat := sink.countP Diagnostic.isError

def Sink.hasErrors (sink : Sink) : Bool := decide (0 < Sink.errorCount sink)

structure SourceFile where
  name : String
  text : String

abbrev Sources : Type := List SourceFile

def Sources.add (sources : Sources) (file : SourceFile) : Nat × Sources :=
  (sources.length, sources ++ [file])

def Sources.get? (sources : Sources) (id : Nat) : Option SourceFile := sources[id]?

end NativeBindings
