set_option autoImplicit false
set_option relaxedAutoImplicit false

/-!
Sets of characters given by ascending ranges of code points.
-/

namespace NativeBindings.Text

def inRanges (ranges : List (Nat × Nat)) (c : Char) : Bool :=
  ranges.any fun r => decide (r.1 ≤ c.toNat) && decide (c.toNat ≤ r.2)

end NativeBindings.Text
