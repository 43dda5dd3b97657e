import NativeBindings.Files.Fault

set_option autoImplicit false
set_option relaxedAutoImplicit false

/-!
Operations on files that failed, with what was to be done.
-/

namespace NativeBindings

inductive FileAction where
  | read (path : String)
  | makeDirectories (path : String)
  | write (path : String)
  deriving DecidableEq

def FileAction.message : FileAction → String
  | read path => "read_to_string(" ++ path ++ ") failed"
  | makeDirectories path => "create_dir_all(" ++ path ++ ")"
  | write path => "write `" ++ path ++ "` failed"

structure FileFailure where
  action : FileAction
  fault : FileFault
  deriving DecidableEq

def FileFailure.message (f : FileFailure) : String := f.action.message ++ ": " ++ f.fault.message

end NativeBindings
