import NativeBindings.Files.System
import NativeBindings.Generation

set_option autoImplicit false
set_option relaxedAutoImplicit false

/-!
Carrying out the plan of a generation in a file system. What was written before a failure stays.
-/

namespace NativeBindings

/-- The files of a finished generation, with the number of functions in each. -/
structure Report where
  written : List (String × Nat)
  skipped : Nat

def Report.total (r : Report) : Nat := r.written.foldr (fun file total => file.2 + total) 0

inductive GenerationFailure where
  | file (failure : FileFailure)
  | render (failure : RenderFailure)

def GenerationFailure.message : GenerationFailure → String
  | file f => f.message
  | render f => f.message

namespace Generation

variable {m : Type → Type} [Monad m]

def writeFile (fs : FileSystem m) (file : OutputFile) : m (Except FileFailure Unit) := do
  let directory := (Path.parent? file.path).getD ""
  match ← fs.makeDirectories directory with
  | .error fault => return .error ⟨.makeDirectories directory, fault⟩
  | .ok () =>
    match ← fs.write file.path file.text with
    | .error fault => return .error ⟨.write file.path, fault⟩
    | .ok () => return .ok ()

/-- How far steps were carried out: what was told and written, and why they ended early. -/
structure Progress where
  told : List LogLine
  written : List (String × Nat)
  failure : Option FileFailure

def runSteps (fs : FileSystem m) : List Step → m Progress
  | [] => return ⟨[], [], none⟩
  | .log line :: rest => do
    let p ← runSteps fs rest
    return { p with told := line :: p.told }
  | .write file :: rest => do
    match ← writeFile fs file with
    | .error f => return ⟨[], [], some f⟩
    | .ok () =>
      let p ← runSteps fs rest
      return { p with written := (file.path, file.functions) :: p.written }

def outcome (p : Plan) (progress : Progress) : Except GenerationFailure Report :=
  match progress.failure, p.failure with
  | some f, _ => .error (.file f)
  | none, some f => .error (.render f)
  | none, none => .ok ⟨progress.written, p.skipped⟩

def run (fs : FileSystem m) (job : Job) : m (List LogLine × Except GenerationFailure Report) := do
  let progress ← runSteps fs (plan job).steps
  return (progress.told, outcome (plan job) progress)

end Generation

end NativeBindings
