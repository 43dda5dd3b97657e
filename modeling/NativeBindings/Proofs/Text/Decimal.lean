import Mathlib.Data.Nat.Digits.Defs
import NativeBindings.Text.Digit

set_option autoImplicit false
set_option relaxedAutoImplicit false

/-!
Characters of a kind, and numbers as they are printed in decimal digits. Main statement: the digits
write the number, without a needless zero in front.
-/

namespace NativeBindings.Text

/-- A statement on the characters of a text is decided on these, not on all characters. -/
instance decidableForallMem {p : Char → Prop} [DecidablePred p] (cs : List Char) :
    Decidable (∀ c ∈ cs, p c) :=
  List.decidableBAll p cs

theorem ne_of_kind {p : Char → Bool} {c d : Char} (hc : p c = true) (hd : p d = false) : c ≠ d := by
  rintro rfl
  exact Bool.noConfusion (hc.symm.trans hd)

theorem notMem_of_kind {p : Char → Bool} {c : Char} {cs : List Char} (hc : p c = true)
    (hcs : ∀ d ∈ cs, p d = false) : c ∉ cs :=
  fun hmem => ne_of_kind hc (hcs c hmem) rfl

theorem span_append_of_head {p : Char → Bool} {cs rest : List Char} (hcs : ∀ c ∈ cs, p c = true)
    (hrest : ∀ c ∈ rest.head?, p c = false) :
    (cs ++ rest).takeWhile p = cs ∧ (cs ++ rest).dropWhile p = rest := by
  rw [List.takeWhile_append_of_pos hcs, List.dropWhile_append_of_pos hcs]
  cases rest with
  | nil => simp
  | cons c more =>
    have hc : p c = false := hrest c rfl
    simp [hc]

/-- Decimal digits that write a number; only zero begins with one. -/
structure Decimal (n : Nat) (digits : List Char) : Prop where
  ne_nil : digits ≠ []
  isDigit : ∀ c ∈ digits, c.isDigit = true
  plain : ∀ more, digits = '0' :: more → more = []
  value : ofDigits 10 digits = n

theorem hexDigit?_of_isDigit {c : Char} (h : c.isDigit = true) :
    hexDigit? c = some (digitValue c) := by
  simp [hexDigit?, h, digitValue]

private theorem ofDigits_append_singleton (base : Nat) (digits : List Char) (c : Char) :
    ofDigits base (digits ++ [c]) = ofDigits base digits * base + (hexDigit? c).getD 0 := by
  simp [ofDigits]

private theorem isDigit_digitChar {n : Nat} (h : n < 10) : n.digitChar.isDigit = true := by
  have hall : ∀ n < 10, n.digitChar.isDigit = true := by decide
  exact hall n h

private theorem digitValue_digitChar {n : Nat} (h : n < 10) : digitValue n.digitChar = n := by
  have hall : ∀ n < 10, digitValue n.digitChar = n := by decide
  exact hall n h

private theorem hexDigit?_digitChar {n : Nat} (h : n < 10) : hexDigit? n.digitChar = some n := by
  rw [hexDigit?_of_isDigit (isDigit_digitChar h), digitValue_digitChar h]

private theorem Decimal.single {n : Nat} (h : n < 10) : Decimal n [n.digitChar] where
  ne_nil := List.cons_ne_nil _ _
  isDigit _ hc := by
    obtain rfl := List.mem_singleton.mp hc
    exact isDigit_digitChar h
  plain _ hmore := (List.cons.inj hmore).2.symm
  value := by simp [ofDigits, hexDigit?_digitChar h]

theorem Decimal.eq_zero {n : Nat} {c : Char} {more : List Char} (h : Decimal n (c :: more))
    (hc : c = '0') : n = 0 := by
  subst hc
  obtain rfl := h.plain more rfl
  rw [← h.value]
  rfl

theorem Decimal.append {n d : Nat} {digits : List Char} (h : Decimal n digits) (hn : 0 < n)
    (hd : d < 10) : Decimal (n * 10 + d) (digits ++ [d.digitChar]) where
  ne_nil := by simp
  isDigit c hc := by
    rcases List.mem_append.mp hc with hc | hc
    · exact h.isDigit c hc
    · obtain rfl := List.mem_singleton.mp hc
      exact isDigit_digitChar hd
  plain more hmore := by
    obtain ⟨c, rest, rfl⟩ := List.exists_cons_of_ne_nil h.ne_nil
    exact absurd (h.eq_zero (List.cons.inj hmore).1) (Nat.ne_of_gt hn)
  value := by rw [ofDigits_append_singleton, h.value, hexDigit?_digitChar hd, Option.getD_some]

theorem decimal_repr (n : Nat) : Decimal n n.repr.toList := by
  rw [Nat.toList_repr]
  induction n using Nat.strongRecOn with
  | ind n ih =>
    rcases Nat.lt_or_ge n 10 with hsmall | hlarge
    · rw [Nat.toDigits_of_lt_base hsmall]
      exact .single hsmall
    · have hfront := (ih (n / 10) (by omega)).append (by omega) (Nat.mod_lt n (by decide))
      rw [Nat.toDigits_of_base_le (by decide) hlarge]
      rwa [Nat.div_add_mod' n 10] at hfront

/-- An integer is printed as the digits of its distance from zero, behind a sign if it is negative.
-/
theorem toList_toString_int (n : Int) :
    (toString n).toList =
      if n < 0 then '-' :: n.natAbs.repr.toList else n.natAbs.repr.toList := by
  cases n with
  | ofNat n => rfl
  | negSucc n =>
    rw [if_pos (Int.negSucc_lt_zero n), Int.toString_eq_repr, Int.repr, String.toList_append]
    rfl

theorem int_chars (n : Int) :
    (toString n).toList ≠ [] ∧ ∀ c ∈ (toString n).toList, c = '-' ∨ c.isDigit = true := by
  have hdecimal := decimal_repr n.natAbs
  rw [toList_toString_int]
  split
  · refine ⟨List.cons_ne_nil _ _, fun c hc => ?_⟩
    exact (List.mem_cons.mp hc).imp id (hdecimal.isDigit c)
  · exact ⟨hdecimal.ne_nil, fun c hc => .inr (hdecimal.isDigit c hc)⟩

end NativeBindings.Text
