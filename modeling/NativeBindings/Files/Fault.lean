set_option autoImplicit false
set_option relaxedAutoImplicit false

/-!
Why an operation on files fails.
-/

namespace NativeBindings

inductive FileFault where
  | notFound
  | alreadyThere
  | notDirectory
  | isDirectory
  | invalidText
  | other (description : String)
  deriving DecidableEq

def FileFault.message : FileFault → String
  | notFound => "No such file or directory (os error 2)"
  | alreadyThere => "File exists (os error 17)"
  | notDirectory => "Not a directory (os error 20)"
  | isDirectory => "Is a directory (os error 21)"
  | invalidText => "stream did not contain valid UTF-8"
  | other description => description

end NativeBindings
