import NativeBindings.Proofs.Listing.Writing
import NativeBindings.Proofs.Text.Decimal

set_option autoImplicit false
set_option relaxedAutoImplicit false

/-!
Written JSON strings are read as the texts they write, and passed over where they are not looked at.
-/

namespace NativeBindings.Json

open Writing

/-! White space. -/

private theorem isSpace_of_mem_spaces {c : Char} (h : c ∈ spaces .json) : isSpace c = true := by
  have hall : ∀ c ∈ spaces .json, isSpace c = true := by decide
  exact hall c h

theorem skipSpace_append {gap : List Char} (h : gap ⊆ spaces .json) (cs : List Char) :
    skipSpace (gap ++ cs) = skipSpace cs :=
  List.dropWhile_append_of_pos fun _ hc => isSpace_of_mem_spaces (h hc)

theorem skipSpace_cons {c : Char} (h : isSpace c = false) (rest : List Char) :
    skipSpace (c :: rest) = c :: rest :=
  List.dropWhile_cons_of_neg (by simp [h])

/-! Strings. -/

private theorem fourHex?_append {n : Nat} {digits : List Char} (h : Hexadecimal 4 n digits)
    (rest : List Char) : fourHex? (digits ++ rest) = some n := by
  obtain ⟨hlength, hnumber⟩ := h
  match digits, hlength with
  | [a, b, c, d], _ =>
    simp only [Toml.hexNumber?, List.foldlM_cons, List.foldlM_nil] at hnumber
    cases ha : Text.hexDigit? a <;> cases hb : Text.hexDigit? b <;>
      cases hc : Text.hexDigit? c <;> cases hd : Text.hexDigit? d <;>
      simp_all [fourHex?]

private theorem not_surrogate (c : Char) :
    isHighSurrogate c.toNat = false ∧ isLowSurrogate c.toNat = false := by
  have hvalid : c.toNat < 0xD800 ∨ 0xDFFF < c.toNat ∧ c.toNat < 0x110000 := c.valid
  simp only [isHighSurrogate, isLowSurrogate, Bool.and_eq_false_iff, decide_eq_false_iff_not]
  omega

theorem lookup_letterEscapes {l c : Char} (h : (l, c) ∈ Writing.letterEscapes) :
    letterEscapes.lookup l = some c := by
  have hall : ∀ p ∈ Writing.letterEscapes, letterEscapes.lookup p.1 = some p.2 := by decide
  exact hall _ h

variable {c : Char} {digits first second e w rest : List Char}

private theorem readCodePoint_single (h : Hexadecimal 4 c.toNat digits) (rest : List Char) :
    readCodePoint (digits ++ rest) = .ok (c, 4) := by
  obtain ⟨hhigh, hlow⟩ := not_surrogate c
  rw [readCodePoint, fourHex?_append h]
  simp [hhigh, hlow]

private theorem readCodePoint_pair {high low : Nat} (hhigh : isHighSurrogate high = true)
    (hlow : isLowSurrogate low = true)
    (hvalue : c.toNat = 0x10000 + (high - 0xD800) * 0x400 + (low - 0xDC00))
    (hfirst : Hexadecimal 4 high first) (hsecond : Hexadecimal 4 low second) (rest : List Char) :
    readCodePoint (first ++ '\\' :: 'u' :: (second ++ rest)) = .ok (c, 10) := by
  have hseparate : isLowSurrogate high = false := by
    simp only [isHighSurrogate, Bool.and_eq_true, decide_eq_true_iff] at hhigh
    simp only [isLowSurrogate, Bool.and_eq_false_iff, decide_eq_false_iff_not]
    omega
  have hpair : ofSurrogates high low = c := by
    rw [ofSurrogates, ← hvalue, Char.ofNat_toNat]
  have hbehind : (first ++ '\\' :: 'u' :: (second ++ rest)).drop 4 =
      '\\' :: 'u' :: (second ++ rest) := by
    rw [← hfirst.1, List.drop_left]
  have hhalf : readLow high ('\\' :: 'u' :: (second ++ rest)) = .ok (c, 6) := by
    rw [readLow, fourHex?_append hsecond]
    simp [hlow, hpair]
  rw [readCodePoint, fourHex?_append hfirst]
  simp only [hseparate, hhigh, hbehind, hhalf]
  rfl

private theorem readString_escape (h : readEscape (e ++ rest) = .ok (c, e.length)) :
    readString ('\\' :: (e ++ rest)) = (readString rest).map fun p => (c :: p.1, p.2) := by
  rw [readString, if_neg (by decide), if_pos rfl, h]
  dsimp only
  rw [List.drop_left]

private theorem readEscape_codePoint {count : Nat} (h : readCodePoint (e ++ rest) = .ok (c, count))
    (hlength : e.length = count) :
    readEscape ('u' :: e ++ rest) = .ok (c, ('u' :: e).length) := by
  have hletter : letterEscapes.lookup 'u' = none := by decide
  rw [List.cons_append, readEscape, hletter, h, List.length_cons, hlength]
  rfl

theorem readString_written (h : CharWritten .json c w) (rest : List Char) :
    readString (w ++ rest) = (readString rest).map fun p => (c :: p.1, p.2) := by
  cases h with
  | plain hplain =>
    simp only [mustEscape, not_or, Nat.not_lt] at hplain
    obtain ⟨hquote, hbackslash, hcontrol⟩ := hplain
    have hc : isControl c = false := by simpa [isControl] using hcontrol
    rw [List.singleton_append, readString, if_neg hquote, if_neg hbackslash, hc]
    rfl
  | @letter l hmem =>
    apply readString_escape (e := [l])
    rw [List.singleton_append, readEscape, lookup_letterEscapes hmem]
    rfl
  | codePoint hdigits =>
    exact readString_escape
      (readEscape_codePoint (readCodePoint_single hdigits rest) hdigits.1)
  | wide hformat => cases hformat
  | @pair high low first second _ hhigh hlow hvalue hfirst hsecond =>
    have hpoint := readCodePoint_pair hhigh hlow hvalue hfirst hsecond rest
    have hlength : (first ++ '\\' :: 'u' :: second).length = 10 := by
      simp [hfirst.1, hsecond.1]
    refine readString_escape (readEscape_codePoint ?_ hlength)
    simpa using hpoint

theorem readString_pieces {cs : List Char} {pieces : List (List Char)}
    (h : List.Forall₂ (CharWritten .json) cs pieces) (rest : List Char) :
    readString (pieces.flatten ++ '"' :: rest) = .ok (cs, rest) := by
  induction h with
  | nil => rw [List.flatten_nil, List.nil_append, readString, if_pos rfl]
  | cons hpiece _ ih =>
    rw [List.flatten_cons, List.append_assoc, readString_written hpiece, ih]
    rfl

private theorem skipString_escape (h : escapeLength (e ++ rest) = .ok e.length) :
    skipString ('\\' :: (e ++ rest)) = skipString rest := by
  rw [skipString, if_neg (by decide), if_pos rfl, h]
  dsimp only
  rw [List.drop_left]

private theorem escapeLength_codePoint {n : Nat} (h : Hexadecimal 4 n digits) (rest : List Char) :
    escapeLength ('u' :: digits ++ rest) = .ok ('u' :: digits).length := by
  have hletter : letterEscapes.lookup 'u' = none := by decide
  rw [List.cons_append, escapeLength, hletter, List.length_cons, h.1]
  simp only [if_true, fourHex?_append h]

theorem skipString_written (h : CharWritten .json c w) (rest : List Char) :
    skipString (w ++ rest) = skipString rest := by
  cases h with
  | plain hplain =>
    simp only [mustEscape, not_or, Nat.not_lt] at hplain
    obtain ⟨hquote, hbackslash, hcontrol⟩ := hplain
    have hc : isControl c = false := by simpa [isControl] using hcontrol
    rw [List.singleton_append, skipString, if_neg hquote, if_neg hbackslash, hc]
    rfl
  | @letter l hmem =>
    apply skipString_escape (e := [l])
    rw [List.singleton_append, escapeLength, lookup_letterEscapes hmem]
    rfl
  | codePoint hdigits => exact skipString_escape (escapeLength_codePoint hdigits rest)
  | wide hformat => cases hformat
  | @pair high low first second _ _ _ _ hfirst hsecond =>
    have hhead := skipString_escape
      (escapeLength_codePoint hfirst ('\\' :: 'u' :: second ++ rest))
    have htail := skipString_escape (escapeLength_codePoint hsecond rest)
    simpa using hhead.trans htail

theorem skipString_pieces {cs : List Char} {pieces : List (List Char)}
    (h : List.Forall₂ (CharWritten .json) cs pieces) (rest : List Char) :
    skipString (pieces.flatten ++ '"' :: rest) = .ok rest := by
  induction h with
  | nil => rw [List.flatten_nil, List.nil_append, skipString, if_pos rfl]
  | cons hpiece _ ih => rw [List.flatten_cons, List.append_assoc, skipString_written hpiece, ih]

end NativeBindings.Json
