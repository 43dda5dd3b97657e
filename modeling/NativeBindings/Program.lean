import NativeBindings.Console
import NativeBindings.Diagnostic.Excerpt
import NativeBindings.TypeTable.Standard
import NativeBindings.Workspace

set_option autoImplicit false
set_option relaxedAutoImplicit false

/-!
The program: from its arguments to generated files, with what it shows and how it ends.
-/

namespace NativeBindings.Program

structure Arguments where
  outputDirectory : String
  specificationFile : String
  deriving DecidableEq

inductive UsageFault where
  | unknownFlag (flag : String)
  | wrongCount (count : Nat)
  deriving DecidableEq

def UsageFault.message : UsageFault → String
  | unknownFlag flag => "Unknown argument: " ++ flag
  | wrongCount count => "expected 2 arguments, got " ++ count.repr

def isFlag (s : String) : Bool := ['-', '-'].isPrefixOf s.toList

def readArguments (arguments : List String) : Except UsageFault Arguments :=
  match arguments.find? isFlag with
  | some flag => .error (.unknownFlag flag)
  | none =>
    match arguments with
    | [outputDirectory, specificationFile] => .ok ⟨outputDirectory, specificationFile⟩
    | _ => .error (.wrongCount arguments.length)

inductive Remark where
  | log (line : LogLine)
  | text (content : String)

inductive Line where
  | text (content : String)
  /-- The line on the whole generation, which tells how long it took. -/
  | summary (report : Report)

inductive Ending where
  | completed
  | failed
  /-- The printer of excerpts has crashed, and the stack was unwound. -/
  | crashed
  deriving DecidableEq

def Ending.exitCode : Ending → UInt32
  | completed => 0
  | failed => 1
  | crashed => 101

/-- What a run of the program shows and how it ends, but for what the runtime says of a crash. -/
structure Outcome where
  ending : Ending
  lines : List Line
  remarks : List Remark

def Outcome.exitCode (o : Outcome) : UInt32 := o.ending.exitCode

def remarkLine (s : String) : Remark := .text (s ++ "\n")

def failed (coloured : Bool) (message : String) (before : List Remark) : Outcome :=
  ⟨.failed, [], before ++ [remarkLine (Console.errorLine coloured message)]⟩

def numberedCause (number : Nat) (cause : String) : String :=
  let indented (c : Char) : List Char := if c = '\n' then '\n' :: List.replicate 7 ' ' else [c]
  "    " ++ number.repr ++ ": " ++ String.ofList (cause.toList.flatMap indented) ++ "\n"

/-- The end of a run whose configuration could not be read, with the chain of causes. -/
def configurationFailed (f : FileFailure) : Outcome :=
  ⟨.failed, [],
    [.text ("Error: failed to load Codegen.toml\n\nCaused by:\n" ++
      numberedCause 0 f.action.message ++ numberedCause 1 f.fault.message)]⟩

variable {m : Type → Type} [Monad m]

def writtenLines (fs : FileSystem m) (coloured : Bool) : List (String × Nat) → m (List Line)
  | [] => return []
  | (path, functions) :: rest => do
    let bytes ← fs.size path
    let lines ← writtenLines fs coloured rest
    return .text (Console.writtenLine coloured path functions bytes) :: lines

def skippedRemarks (coloured : Bool) (skipped : Nat) : List Remark :=
  if 0 < skipped then
    [remarkLine (Console.warningLine coloured
      (skipped.repr ++ " signature(s) skipped on host name collisions"))]
  else []

def generate (fs : FileSystem m) (coloured : Bool) (arguments : Arguments)
    (configuration : Configuration) (declarations : List Declaration) (before : List Remark) :
    m Outcome := do
  let job : Generation.Job :=
    ⟨arguments.outputDirectory, configuration, TypeTable.standard, declarations⟩
  let (told, outcome) ← Generation.run fs job
  let before := before ++ told.map Remark.log
  match outcome with
  | .error f => return failed coloured f.message before
  | .ok report =>
    let lines ← writtenLines fs coloured report.written
    return ⟨.completed, lines ++ [.summary report],
      before ++ skippedRemarks coloured report.skipped⟩

def runWith (fs : FileSystem m) (coloured : Bool) (arguments : Arguments) : m Outcome := do
  let configurationPath := Configuration.pathBeside arguments.specificationFile
  match Configuration.ofFile configurationPath (← fs.read configurationPath) with
  | .error f => return configurationFailed f
  | .ok (configuration, told) =>
    let result ← fs.read arguments.specificationFile
    let (loaded, workspace) := Workspace.empty.load arguments.specificationFile result
    let reports := Excerpt.reportAll workspace.sources workspace.sink
    let before := told.map Remark.log ++ [.text reports.text]
    if reports.complete then
      match loaded with
      | .error f => return failed coloured f.message before
      | .ok declarations => generate fs coloured arguments configuration declarations before
    else return ⟨.crashed, [], before⟩

def run (fs : FileSystem m) (environment : Console.Environment) (arguments : List String) :
    m Outcome :=
  let coloured := environment.coloured
  match readArguments arguments with
  | .error f =>
    return ⟨.failed, [],
      (Console.errorLine coloured f.message :: Console.usageLines).map remarkLine⟩
  | .ok a => runWith fs coloured a

end NativeBindings.Program
