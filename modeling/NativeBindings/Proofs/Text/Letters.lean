set_option autoImplicit false
set_option relaxedAutoImplicit false

/-!
Letters and digits by their place among the characters, and the capital of a letter.
-/

namespace NativeBindings.Text

variable {c : Char}

theorem isUpper_iff : c.isUpper = true ↔ 'A' ≤ c ∧ c ≤ 'Z' := decide_eq_true_iff

theorem isLower_iff : c.isLower = true ↔ 'a' ≤ c ∧ c ≤ 'z' :=
  Bool.and_eq_true_iff.trans (and_congr decide_eq_true_iff decide_eq_true_iff)

theorem isDigit_iff : c.isDigit = true ↔ '0' ≤ c ∧ c ≤ '9' :=
  Bool.and_eq_true_iff.trans (and_congr decide_eq_true_iff decide_eq_true_iff)

theorem isAlphanum_iff :
    c.isAlphanum = true ↔ (c.isUpper = true ∨ c.isLower = true) ∨ c.isDigit = true :=
  Bool.or_eq_true_iff.trans (or_congr Bool.or_eq_true_iff Iff.rfl)

private theorem toNat_of_between {a b : Char} (h : a ≤ c ∧ c ≤ b) :
    a.toNat ≤ c.toNat ∧ c.toNat ≤ b.toNat :=
  ⟨UInt32.le_iff_toNat_le.mp h.1, UInt32.le_iff_toNat_le.mp h.2⟩

private theorem toNat_of_isUpper (h : c.isUpper = true) : 65 ≤ c.toNat ∧ c.toNat ≤ 90 :=
  toNat_of_between (isUpper_iff.mp h)

private theorem toNat_of_isLower (h : c.isLower = true) : 97 ≤ c.toNat ∧ c.toNat ≤ 122 :=
  toNat_of_between (isLower_iff.mp h)

theorem toNat_of_isAlphanum (h : c.isAlphanum = true) : 48 ≤ c.toNat ∧ c.toNat ≤ 122 := by
  rcases isAlphanum_iff.mp h with (hupper | hlower) | hdigit
  · have hbounds := toNat_of_isUpper hupper
    omega
  · have hbounds := toNat_of_isLower hlower
    omega
  · have hbounds : 48 ≤ c.toNat ∧ c.toNat ≤ 57 := toNat_of_between (isDigit_iff.mp hdigit)
    omega

theorem isLower_eq_false_of_isUpper (h : c.isUpper = true) : c.isLower = false := by
  rw [Bool.eq_false_iff]
  intro hlower
  have hcapital := toNat_of_isUpper h
  have hsmall := toNat_of_isLower hlower
  omega

theorem isAlpha_of_isUpper (h : c.isUpper = true) : c.isAlpha = true :=
  Bool.or_eq_true_iff.mpr (.inl h)

theorem toUpper_of_isUpper (h : c.isUpper = true) : c.toUpper = c := by
  refine dif_neg fun hbounds => ?_
  have hlower := isLower_iff.mpr hbounds
  rw [isLower_eq_false_of_isUpper h] at hlower
  cases hlower

theorem isUpper_toUpper (h : c.isAlpha = true) : c.toUpper.isUpper = true := by
  rcases Bool.or_eq_true_iff.mp h with hupper | hlower
  · rwa [toUpper_of_isUpper hupper]
  · have hvalue : c.toUpper.val = c.val + ('A'.val - 'a'.val) := by
      rw [show c.toUpper = _ from dif_pos (isLower_iff.mp hlower)]
    have hshift : ('A'.val - 'a'.val).toNat = 2 ^ 32 - 32 := by decide
    have hplace : c.toUpper.toNat = (c.toNat + (2 ^ 32 - 32)) % 2 ^ 32 := by
      show c.toUpper.val.toNat = _
      rw [hvalue, UInt32.toNat_add, hshift]
      rfl
    have hsmall := toNat_of_isLower hlower
    have hbounds : 65 ≤ c.toUpper.toNat ∧ c.toUpper.toNat ≤ 90 := by omega
    exact isUpper_iff.mpr
      ⟨UInt32.le_iff_toNat_le.mpr hbounds.1, UInt32.le_iff_toNat_le.mpr hbounds.2⟩

end NativeBindings.Text
