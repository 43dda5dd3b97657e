import NativeBindings.Files.Fault
import NativeBindings.Files.Path

set_option autoImplicit false
set_option relaxedAutoImplicit false

/-!
What a program needs of a file system.
-/

namespace NativeBindings

structure FileSystem (m : Type → Type) where
  read : String → m (Except FileFault String)
  write : String → String → m (Except FileFault Unit)
  /-- Makes a directory in one that is there. -/
  makeDirectory : String → m (Except FileFault Unit)
  isDirectory : String → m Bool
  /-- The number of bytes of a file; zero where there is none. -/
  size : String → m Nat

namespace FileSystem

variable {m : Type → Type} [Monad m]

def ensureDirectory (fs : FileSystem m) (path : String) : m (Except FileFault Unit) := do
  match ← fs.makeDirectory path with
  | .ok () => return .ok ()
  | .error f => if ← fs.isDirectory path then return .ok () else return .error f

/-- Makes a directory and those it lies in, at most `fuel` of them. They are made only where the
directory itself cannot be made for want of them. -/
def makeDirectoriesWith (fs : FileSystem m) : Nat → String → m (Except FileFault Unit)
  | 0, _ => return .ok ()
  | fuel + 1, path =>
    if path.isEmpty then return .ok ()
    else do
      match ← fs.makeDirectory path with
      | .ok () => return .ok ()
      | .error .notFound =>
        match Path.parent? path with
        | none => return .error (.other "failed to create whole tree")
        | some parent =>
          match ← fs.makeDirectoriesWith fuel parent with
          | .error f => return .error f
          | .ok () => fs.ensureDirectory path
      | .error f => if ← fs.isDirectory path then return .ok () else return .error f

def makeDirectories (fs : FileSystem m) (path : String) : m (Except FileFault Unit) :=
  fs.makeDirectoriesWith (path.toList.length + 1) path

end FileSystem

end NativeBindings
