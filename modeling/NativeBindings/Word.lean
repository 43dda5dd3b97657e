set_option autoImplicit false
set_option relaxedAutoImplicit false

/-!
Integers that fit words of a given number of bits.
-/

namespace NativeBindings

def fitsSigned (bits : Nat) (n : Int) : Prop :=
  -(Nat.pow 2 (bits - 1) : Int) ≤ n ∧ n < (Nat.pow 2 (bits - 1) : Int)

def fitsUnsigned (bits : Nat) (n : Int) : Prop := 0 ≤ n ∧ n < (Nat.pow 2 bits : Int)

instance decidableFitsSigned (bits : Nat) (n : Int) : Decidable (fitsSigned bits n) := by
  unfold fitsSigned
  infer_instance

instance decidableFitsUnsigned (bits : Nat) (n : Int) : Decidable (fitsUnsigned bits n) := by
  unfold fitsUnsigned
  infer_instance

end NativeBindings
