import NativeBindings.Files.Failure
import NativeBindings.Files.Path
import NativeBindings.Specification

set_option autoImplicit false
set_option relaxedAutoImplicit false

/-!
Loading specifications from files, with the files and diagnostics that have come together.
-/

namespace NativeBindings

def Format.ofPath (path : String) : Format :=
  if (Path.extension? path).map (·.map Char.toLower) = some "json".toList then .json else .toml

structure Workspace where
  sources : Sources
  sink : Sink

inductive LoadFailure where
  | file (failure : FileFailure)
  | specification (failure : Specification.Failure)

def LoadFailure.message : LoadFailure → String
  | file f => f.message
  | specification f => f.message

namespace Workspace

def empty : Workspace := ⟨[], []⟩

/-- Loads the specification of a path that was read with the given result. Only a file that could be
read is registered. -/
def load (w : Workspace) (path : String) (result : Except FileFault String) :
    Except LoadFailure (List Declaration) × Workspace :=
  match result with
  | .error fault => (.error (.file ⟨.read path, fault⟩), w)
  | .ok source =>
    let (id, sources) := w.sources.add ⟨path, source⟩
    let (decoded, sink) := Specification.decode (.ofPath path) source path id w.sink
    (decoded.mapError .specification, ⟨sources, sink⟩)

end Workspace

end NativeBindings
