import NativeBindings.Program

set_option autoImplicit false
set_option relaxedAutoImplicit false

/-!
The command: its file system, its streams and its exit code.
-/

namespace NativeBindings.Command

def faultOf : IO.Error → FileFault
  | .noFileOrDirectory _ _ _ => .notFound
  | .noSuchThing _ _ _ => .notFound
  | .alreadyExists _ _ _ => .alreadyThere
  | .inappropriateType _ code _ => if code = 20 then .notDirectory else .isDirectory
  | e => .other (toString e)

def attempt {α : Type} (action : IO α) : IO (Except FileFault α) := do
  match ← action.toBaseIO with
  | .ok x => return .ok x
  | .error e => return .error (faultOf e)

def readText (path : String) : IO (Except FileFault String) := do
  match ← attempt (IO.FS.readBinFile path) with
  | .error f => return .error f
  | .ok content =>
    match String.fromUTF8? content with
    | some text => return .ok text
    | none => return .error .invalidText

def sizeOf (path : String) : IO Nat := do
  match ← attempt (IO.FS.readBinFile path) with
  | .ok content => return content.size
  | .error _ => return 0

def isDirectory (path : String) : IO Bool := do
  match ← attempt (IO.FS.readBinFile path) with
  | .error .isDirectory => return true
  | _ => return false

def fileSystem : FileSystem IO where
  read := readText
  write path text := attempt (IO.FS.writeBinFile path text.toUTF8)
  makeDirectory path := attempt (IO.FS.createDir path)
  isDirectory := isDirectory
  size := sizeOf

def environment : IO Console.Environment :=
  return ⟨← IO.getEnv "NO_COLOR", ← IO.getEnv "FORCE_COLOR", ← IO.getEnv "TERM"⟩

def seconds (milliseconds : Nat) : String :=
  Console.durationText (Binary64.ofDecimal false milliseconds (-3))

def showRemark (time : String) : Program.Remark → IO Unit
  | .log line => IO.eprintln (line.text time)
  | .text content => IO.eprint content

def showLine (coloured : Bool) (time : String) : Program.Line → IO Unit
  | .text content => IO.println content
  | .summary report => IO.println (Console.summaryLine coloured report time)

end NativeBindings.Command

def main (arguments : List String) : IO UInt32 := do
  let started ← IO.monoMsNow
  let environment ← NativeBindings.Command.environment
  let outcome ← NativeBindings.Program.run NativeBindings.Command.fileSystem environment arguments
  let time := NativeBindings.Command.seconds ((← IO.monoMsNow) - started)
  outcome.remarks.forM (NativeBindings.Command.showRemark time)
  outcome.lines.forM (NativeBindings.Command.showLine environment.coloured time)
  return outcome.exitCode
