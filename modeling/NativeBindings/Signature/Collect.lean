import NativeBindings.Category
import NativeBindings.KeepFirst
import NativeBindings.Signature

set_option autoImplicit false
set_option relaxedAutoImplicit false

/-!
The signatures of a category: those of all variants of the declarations it takes, each text once.
-/

namespace NativeBindings

def Category.variantSignatures (c : Category) (declarations : List Declaration) : List Signature :=
  ((declarations.filter c.admits).flatMap Declaration.variants).map Signature.ofDeclaration

def Category.signatures (c : Category) (declarations : List Declaration) : List Signature :=
  keepFirst Signature.text (c.variantSignatures declarations)

end NativeBindings
