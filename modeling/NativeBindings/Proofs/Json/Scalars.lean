import NativeBindings.Json.Listings
import NativeBindings.Proofs.Json.Strings
import NativeBindings.Proofs.Text.Decimal

set_option autoImplicit false
set_option relaxedAutoImplicit false

/-!
Readers take written values off the front of a text. Main statements: texts, truth values, modes and
default values are read as what they write.
-/

namespace NativeBindings.Json

open Writing

def Opens (c : Char) : Prop := isSpace c = false ∧ c ∉ [',', ']', '\x7d', 'n']

def Ends (rest : List Char) : Prop := ∀ c ∈ rest.head?, c.isDigit = false ∧ c ∉ ['.', 'e', 'E']

/-- A reader takes a value off the front of a text that begins with the given one, behind white
space. -/
structure Reads {α : Type} (reader : Reader α) (x : α) (w : List Char) : Prop where
  opens : ∃ c more, w = c :: more ∧ Opens c
  reads : ∀ cs rest, skipSpace cs = w ++ rest → Ends rest → reader cs = .ok (x, rest)

instance (c : Char) : Decidable (Opens c) := inferInstanceAs (Decidable (_ ∧ _))

variable {w rest : List Char}

theorem Reads.skipSpace_append {α : Type} {reader : Reader α} {x : α} (h : Reads reader x w)
    (rest : List Char) : skipSpace (w ++ rest) = w ++ rest := by
  obtain ⟨c, more, rfl, hc⟩ := h.opens
  exact skipSpace_cons hc.1 _

theorem ends_append {gap : List Char} (h : gap ⊆ spaces .json) {c : Char}
    (hc : c ∈ [',', ']', '\x7d']) (rest : List Char) : Ends (gap ++ c :: rest) := by
  have hspaces : ∀ d ∈ spaces .json, d.isDigit = false ∧ d ∉ ['.', 'e', 'E'] := by decide
  have hclosing : ∀ d ∈ [',', ']', '\x7d'], d.isDigit = false ∧ d ∉ ['.', 'e', 'E'] := by decide
  intro d hd
  cases gap with
  | nil =>
    obtain rfl := Option.some.inj hd
    exact hclosing _ hc
  | cons e more =>
    obtain rfl := Option.some.inj hd
    exact hspaces _ (h List.mem_cons_self)

theorem ends_spaces {gap : List Char} (h : gap ⊆ spaces .json) : Ends gap := by
  have hspaces : ∀ d ∈ spaces .json, d.isDigit = false ∧ d ∉ ['.', 'e', 'E'] := by decide
  exact fun d hd => hspaces d (h (List.mem_of_mem_head? hd))

/-! Texts, truth values and modes. -/

private theorem textOf_quote {expected : String} {cs more : List Char}
    (h : skipSpace cs = '"' :: more) :
    textOf expected cs = (readString more).map fun p => (String.ofList p.1, p.2) := by
  rw [textOf, h]
  rfl

private theorem reads_textOf (expected : String) {s : String} (h : TextWritten .json s w) :
    Reads (textOf expected) s w := by
  obtain ⟨pieces, hpieces, rfl⟩ := h
  refine ⟨⟨'"', _, rfl, by decide⟩, fun cs rest hcs _ => ?_⟩
  have hread : readString (pieces.flatten ++ ['"'] ++ rest) = .ok (s.toList, rest) := by
    simpa using readString_pieces hpieces rest
  rw [List.cons_append] at hcs
  rw [textOf_quote hcs, hread]
  simp [Except.map]

theorem reads_text {s : String} (h : TextWritten .json s w) : Reads text s w :=
  reads_textOf "a string" h

theorem reads_bool {b : Bool} (h : BoolWritten b w) : Reads bool b w := by
  obtain rfl := h
  cases b with
  | false =>
    refine ⟨⟨'f', _, rfl, by decide⟩, fun cs rest hcs _ => ?_⟩
    rw [bool, hcs]
    rfl
  | true =>
    refine ⟨⟨'t', _, rfl, by decide⟩, fun cs rest hcs _ => ?_⟩
    rw [bool, hcs]
    rfl

theorem reads_mode {m : Mode} (h : TextWritten .json m.word w) : Reads mode m w := by
  have htext := reads_textOf "variant identifier" h
  obtain ⟨pieces, -, rfl⟩ := h
  refine ⟨htext.opens, fun cs rest hcs hrest => ?_⟩
  have hword := htext.reads _ rest (htext.skipSpace_append rest) hrest
  rw [mode, hcs]
  dsimp only [List.cons_append] at hword ⊢
  rw [if_pos rfl, modeWord, hword]
  dsimp only
  rw [Mode.ofWord?_word]

/-! Numbers. -/

private theorem le_foldl_digits (digits : List Char) (n : Nat) :
    n ≤ digits.foldl (fun n c => n * 10 + (Text.hexDigit? c).getD 0) n := by
  induction digits generalizing n with
  | nil => exact Nat.le_refl n
  | cons c rest ih =>
    have hnext := ih (n * 10 + (Text.hexDigit? c).getD 0)
    rw [List.foldl_cons]
    omega

private theorem takeFitting_of_lt {digits : List Char} (hdigits : ∀ c ∈ digits, c.isDigit = true)
    {n : Nat} (h : digits.foldl (fun n c => n * 10 + (Text.hexDigit? c).getD 0) n < 2 ^ 64) :
    takeFitting n digits =
      (digits.foldl (fun n c => n * 10 + (Text.hexDigit? c).getD 0) n, []) := by
  induction digits generalizing n with
  | nil => rfl
  | cons c rest ih =>
    obtain ⟨hc, hrest⟩ := List.forall_mem_cons.mp hdigits
    have hvalue : (Text.hexDigit? c).getD 0 = Text.digitValue c := by
      rw [Text.hexDigit?_of_isDigit hc, Option.getD_some]
    rw [List.foldl_cons, hvalue] at h ⊢
    have hfits : n * 10 + Text.digitValue c < Nat.pow 2 64 :=
      Nat.lt_of_le_of_lt (le_foldl_digits rest _) h
    rw [takeFitting, if_pos hfits, ih hrest h]

private theorem readTail_of_ends (negative : Bool) (n : Nat) (h : Ends rest) :
    readTail negative n 0 rest = .ok (signedNumeral negative n, rest) := by
  unfold readTail
  split
  · exact absurd (h _ rfl).2 (by decide)
  · rename_i hpoint
    have hhead : rest.head? ≠ some 'e' ∧ rest.head? ≠ some 'E' :=
      ⟨fun he => (h _ he).2 (by decide), fun he => (h _ he).2 (by decide)⟩
    rw [if_pos ⟨rfl, hhead⟩]

private theorem readMagnitude_decimal (negative : Bool) {n : Nat} (h : Text.Decimal n w)
    (hn : n < 2 ^ 64)
    (hrest : Ends rest) :
    readMagnitude negative (w ++ rest) = .ok (signedNumeral negative n, rest) := by
  have hbehind : ∀ c ∈ rest.head?, c.isDigit = false := fun c hc => (hrest c hc).1
  obtain ⟨c, more, rfl⟩ := List.exists_cons_of_ne_nil h.ne_nil
  obtain ⟨hc, hmore⟩ := List.forall_mem_cons.mp h.isDigit
  rw [List.cons_append, readMagnitude]
  by_cases hzero : c = '0'
  · obtain rfl := h.eq_zero hzero
    obtain rfl := h.plain more (by rw [hzero])
    have hnone : rest.head?.any Char.isDigit = false := by
      simpa [Option.any_eq_false] using hbehind
    rw [if_pos hzero, List.nil_append, hnone]
    exact readTail_of_ends negative 0 hrest
  · obtain ⟨htake, hdrop⟩ := Text.span_append_of_head hmore hbehind
    have hvalue : more.foldl (fun n c => n * 10 + (Text.hexDigit? c).getD 0)
        (Text.digitValue c) = n := by
      rw [← h.value, Text.ofDigits, List.foldl_cons, Text.hexDigit?_of_isDigit hc]
      simp
    rw [if_neg hzero, if_pos hc, htake, hdrop, takeFitting_of_lt hmore (by rwa [hvalue]), hvalue]
    exact readTail_of_ends negative n hrest

private theorem readNumber_of_ne {c : Char} (h : c ≠ '-') (more : List Char) :
    readNumber (c :: more) = readMagnitude false (c :: more) := by
  unfold readNumber
  split
  · rename_i heq
    exact absurd (List.cons.inj heq).1 h
  · rfl

private theorem readNumber_int {n : Int} (hlow : -(2 ^ 63) ≤ n) (hhigh : n < 2 ^ 63)
    (hrest : Ends rest) :
    ∃ m : Numeral, readNumber ((toString n).toList ++ rest) = .ok (m, rest) ∧
      m.defaultValue = .int n := by
  have hdecimal := Text.decimal_repr n.natAbs
  have hfits : n.natAbs < 2 ^ 64 := by omega
  rw [Text.toList_toString_int]
  by_cases hsign : n < 0
  · refine ⟨signedNumeral true n.natAbs, ?_, ?_⟩
    · rw [if_pos hsign, List.cons_append, readNumber,
        readMagnitude_decimal true hdecimal hfits hrest]
    · have hrange : ¬ (n.natAbs = 0 ∨ Nat.pow 2 63 < n.natAbs) := by
        have hpow : Nat.pow 2 63 = 2 ^ 63 := rfl
        omega
      rw [signedNumeral, if_pos rfl, if_neg hrange, Numeral.defaultValue]
      congr 1
      omega
  · obtain ⟨c, more, hdigits⟩ := List.exists_cons_of_ne_nil hdecimal.ne_nil
    refine ⟨signedNumeral false n.natAbs, ?_, ?_⟩
    · have hc : c ≠ '-' :=
        Text.ne_of_kind (hdecimal.isDigit c (hdigits ▸ List.mem_cons_self)) (by decide)
      have hread := readMagnitude_decimal false hdecimal hfits hrest
      rw [if_neg hsign]
      rw [hdigits, List.cons_append] at hread ⊢
      rw [readNumber_of_ne hc, hread]
    · have hrange : n.natAbs < Nat.pow 2 63 := by
        have hpow : Nat.pow 2 63 = 2 ^ 63 := rfl
        omega
      rw [signedNumeral, if_neg Bool.false_ne_true, Numeral.defaultValue, if_pos hrange]
      congr 1
      omega

private theorem opens_of_isDigit {c : Char} (h : c.isDigit = true) : Opens c := by
  refine ⟨?_, Text.notMem_of_kind h (by decide)⟩
  have hspace : c ∉ [' ', '\n', '\t', '\r'] := Text.notMem_of_kind h (by decide)
  simpa [isSpace, and_assoc] using hspace

/-! Default values. -/

theorem reads_defaultValue {v : DefaultValue} (h : DefaultWritten .json v w) :
    Reads defaultValue v w := by
  cases v with
  | bool b =>
    have hbool := reads_bool h
    refine ⟨hbool.opens, fun cs rest hcs hrest => ?_⟩
    have hread := hbool.reads _ rest (hbool.skipSpace_append rest) hrest
    obtain rfl := h
    rw [defaultValue, hcs]
    cases b <;> simp_all [Except.map]
  | float x => exact absurd h id
  | text s =>
    have htext := reads_text h
    refine ⟨htext.opens, fun cs rest hcs hrest => ?_⟩
    have hread := htext.reads _ rest (htext.skipSpace_append rest) hrest
    obtain ⟨pieces, -, rfl⟩ := h
    rw [defaultValue, hcs]
    simp_all [Except.map]
  | int n =>
    obtain ⟨hlow, hhigh, rfl⟩ := h
    obtain ⟨hne, hchars⟩ := Text.int_chars n
    obtain ⟨c, more, hw⟩ := List.exists_cons_of_ne_nil hne
    have hc : c = '-' ∨ c.isDigit = true := hchars c (hw ▸ List.mem_cons_self)
    have hopens : Opens c := hc.elim (fun hc => hc ▸ by decide) opens_of_isDigit
    refine ⟨⟨c, more, hw, hopens⟩, fun cs rest hcs hrest => ?_⟩
    obtain ⟨m, hread, hm⟩ := readNumber_int hlow hhigh hrest
    rw [hw, List.cons_append] at hread hcs
    have hword : ¬ (c = 't' ∨ c = 'f') := by
      rintro (rfl | rfl) <;> exact absurd hc (by decide)
    have hquote : c ≠ '"' := by
      rintro rfl
      exact absurd hc (by decide)
    rw [defaultValue, hcs]
    dsimp only
    rw [if_neg hword, if_neg hquote, if_pos hc, hread, Except.map, hm]

theorem reads_optional {α : Type} {item : Reader α} {x : α} (h : Reads item x w) :
    Reads (optional item) (some x) w := by
  refine ⟨h.opens, fun cs rest hcs hrest => ?_⟩
  have hread := h.reads _ rest (h.skipSpace_append rest) hrest
  obtain ⟨c, more, rfl, hc⟩ := h.opens
  have hnull : c ≠ 'n' := by
    rintro rfl
    exact hc.2 (by decide)
  rw [optional, hcs, List.cons_append]
  rw [List.cons_append] at hread
  split
  · rename_i heq
    exact absurd (List.cons.inj heq).1 hnull
  · rw [hread]
    rfl

end NativeBindings.Json
