import NativeBindings.Proofs.Listing.Writing
import NativeBindings.Proofs.Text.Decimal

set_option autoImplicit false
set_option relaxedAutoImplicit false

/-!
Written TOML strings and keys. Main statements: a string is read as the text it writes, and a key in
quotes or bare as its name.
-/

namespace NativeBindings.Toml

open Writing

variable {c : Char} {w digits rest : List Char}

/-! The extent of a string. -/

private theorem spanBasic_plain (h : c ∉ ['"', '\\', '\n']) (rest : List Char) :
    spanBasic (c :: rest) = (spanBasic rest).cons c := by
  simp only [List.mem_cons, List.not_mem_nil, or_false, not_or] at h
  obtain ⟨hquote, hbackslash, hnewline⟩ := h
  rw [spanBasic]
  · exact hquote
  · exact hnewline
  · exact fun _ hc _ => hbackslash hc
  · exact fun _ hc _ => hbackslash hc

private theorem spanBasic_backslash (h : c ∉ ['"', '\\', '\n']) (rest : List Char) :
    spanBasic ('\\' :: c :: rest) = ((spanBasic rest).cons c).cons '\\' := by
  rw [← spanBasic_plain h]
  simp only [List.mem_cons, List.not_mem_nil, or_false, not_or] at h
  obtain ⟨hquote, hbackslash, -⟩ := h
  rw [spanBasic]
  · decide
  · decide
  · exact fun _ _ heq => hquote (List.cons.inj heq).1
  · exact fun _ _ heq => hbackslash (List.cons.inj heq).1

def Quotation.append (w : List Char) (q : Quotation) : Quotation := { q with body := w ++ q.body }

private theorem spanBasic_plains (h : ∀ c ∈ w, c ∉ ['"', '\\', '\n']) (rest : List Char) :
    spanBasic (w ++ rest) = (spanBasic rest).append w := by
  induction w with
  | nil => rfl
  | cons c more ih =>
    obtain ⟨hc, hmore⟩ := List.forall_mem_cons.mp h
    rw [List.cons_append, spanBasic_plain hc, ih hmore]
    rfl

private theorem isHexDigit_of_hexNumber? {digits : List Char} {m n : Nat}
    (h : digits.foldlM (fun n c => (Text.hexDigit? c).map (n * 16 + ·)) m = some n) :
    ∀ c ∈ digits, Text.isHexDigit c = true := by
  induction digits generalizing m with
  | nil => simp
  | cons c more ih =>
    rw [List.foldlM_cons] at h
    cases hc : Text.hexDigit? c with
    | none => simp [hc] at h
    | some d =>
      rw [hc] at h
      exact List.forall_mem_cons.mpr ⟨by rw [Text.isHexDigit, hc]; rfl, ih h⟩

private theorem spanBasic_digits {count n : Nat} (h : Hexadecimal count n digits)
    (rest : List Char) :
    spanBasic (digits ++ rest) = (spanBasic rest).append digits := by
  refine spanBasic_plains (fun c hc => ?_) rest
  exact Text.notMem_of_kind (isHexDigit_of_hexNumber? h.2 c hc) (by decide)

private theorem not_mustEscape_iff :
    ¬ mustEscape .toml c ↔ c ≠ '"' ∧ c ≠ '\\' ∧ isControl c = false := by
  simp [mustEscape, isControl]

private theorem spanBasic_written (h : CharWritten .toml c w) (rest : List Char) :
    spanBasic (w ++ rest) = (spanBasic rest).append w := by
  cases h with
  | plain hplain =>
    obtain ⟨hquote, hbackslash, hcontrol⟩ := not_mustEscape_iff.mp hplain
    refine spanBasic_plains (fun d hd => ?_) rest
    obtain rfl := List.mem_singleton.mp hd
    have hnewline : d ≠ '\n' := by
      rintro rfl
      exact absurd hcontrol (by decide)
    simp [hquote, hbackslash, hnewline]
  | @letter l hmem =>
    have hall : ∀ p ∈ Writing.letterEscapes, p.1 ≠ '"' → p.1 ≠ '\\' →
        p.1 ∉ ['"', '\\', '\n'] := by decide
    by_cases hquote : l = '"'
    · subst hquote
      rfl
    · by_cases hbackslash : l = '\\'
      · subst hbackslash
        rfl
      · exact spanBasic_backslash (hall _ hmem hquote hbackslash) rest
  | codePoint hdigits =>
    rw [List.cons_append, List.cons_append, spanBasic_backslash (by decide),
      spanBasic_digits hdigits]
    rfl
  | wide _ hdigits =>
    rw [List.cons_append, List.cons_append, spanBasic_backslash (by decide),
      spanBasic_digits hdigits]
    rfl
  | pair hformat => cases hformat

private theorem spanBasic_pieces {cs : List Char} {pieces : List (List Char)}
    (h : List.Forall₂ (CharWritten .toml) cs pieces) (rest : List Char) :
    spanBasic (pieces.flatten ++ '"' :: rest) = ⟨pieces.flatten, true, rest⟩ := by
  induction h with
  | nil => rfl
  | cons hpiece _ ih =>
    rw [List.flatten_cons, List.append_assoc, spanBasic_written hpiece, ih]
    rfl

/-! The value of a string. -/

private theorem codePoint?_of_hexadecimal {count : Nat} (h : Hexadecimal count c.toNat digits)
    (rest : List Char) : codePoint? count (digits ++ rest) = some c := by
  have htake : (digits ++ rest).take count = digits := by rw [← h.1, List.take_left]
  have hvalid : c.toNat.isValidChar := c.valid
  rw [codePoint?, htake, if_pos h.1, h.2]
  simp [hvalid]

private theorem decodeBasic?_escape {e : List Char}
    (h : readEscape? (e ++ rest) = some (c, e.length)) :
    decodeBasic? false ('\\' :: (e ++ rest)) = (decodeBasic? false rest).map (c :: ·) := by
  rw [decodeBasic?, if_pos rfl, Bool.false_and, if_neg Bool.false_ne_true, h]
  dsimp only
  rw [List.drop_left]

theorem lookup_letterEscapes {l : Char} (h : (l, c) ∈ Writing.letterEscapes) :
    letterEscapes.lookup l = some c := by
  have hall : ∀ p ∈ Writing.letterEscapes, letterEscapes.lookup p.1 = some p.2 := by decide
  exact hall _ h

private theorem readEscape?_codePoint {l : Char} {count : Nat}
    (hletter : letterEscapes.lookup l = none)
    (hcount : codePointEscapes.lookup l = some count) (h : Hexadecimal count c.toNat digits)
    (rest : List Char) :
    readEscape? (l :: digits ++ rest) = some (c, (l :: digits).length) := by
  rw [List.cons_append, readEscape?, hletter, hcount, List.length_cons, h.1]
  dsimp only
  rw [codePoint?_of_hexadecimal h]
  rfl

private theorem decodeBasic?_written (h : CharWritten .toml c w) (rest : List Char) :
    decodeBasic? false (w ++ rest) = (decodeBasic? false rest).map (c :: ·) := by
  cases h with
  | plain hplain =>
    obtain ⟨-, hbackslash, hcontrol⟩ := not_mustEscape_iff.mp hplain
    rw [List.singleton_append, decodeBasic?, if_neg hbackslash, hcontrol]
    rfl
  | @letter l hmem =>
    apply decodeBasic?_escape (e := [l])
    rw [List.singleton_append, readEscape?, lookup_letterEscapes hmem]
    rfl
  | codePoint hdigits =>
    exact decodeBasic?_escape (readEscape?_codePoint (by decide) (by decide) hdigits rest)
  | wide _ hdigits =>
    exact decodeBasic?_escape (readEscape?_codePoint (by decide) (by decide) hdigits rest)
  | pair hformat => cases hformat

private theorem decodeBasic?_pieces {cs : List Char} {pieces : List (List Char)}
    (h : List.Forall₂ (CharWritten .toml) cs pieces) :
    decodeBasic? false pieces.flatten = some cs := by
  induction h with
  | nil => rw [List.flatten_nil, decodeBasic?]
  | cons hpiece _ ih =>
    rw [List.flatten_cons, decodeBasic?_written hpiece, ih]
    rfl

/-! Strings where they stand. -/

private theorem head?_written (h : CharWritten .toml c w) (rest : List Char) :
    ∃ d more, w ++ rest = d :: more ∧ d ≠ '"' := by
  cases h with
  | plain hplain => exact ⟨c, rest, rfl, (not_mustEscape_iff.mp hplain).1⟩
  | letter _ => exact ⟨'\\', _, rfl, by decide⟩
  | codePoint _ => exact ⟨'\\', _, rfl, by decide⟩
  | wide _ _ => exact ⟨'\\', _, rfl, by decide⟩
  | pair hformat => cases hformat

private theorem not_long {s : String} (h : TextWritten .toml s w) (hrest : rest.head? ≠ some '"') :
    ∀ more, w ++ rest ≠ '"' :: '"' :: '"' :: more := by
  obtain ⟨pieces, hpieces, rfl⟩ := h
  intro more heq
  simp only [List.cons_append, List.append_assoc, List.nil_append, List.cons.injEq, true_and] at heq
  generalize s.toList = cs at hpieces
  cases hpieces with
  | nil =>
    simp only [List.flatten_nil, List.nil_append, List.cons.injEq, true_and] at heq
    exact hrest (by rw [heq]; rfl)
  | @cons c piece _ pieces hpiece _ =>
    obtain ⟨d, more, hhead, hd⟩ := head?_written hpiece (pieces.flatten ++ '"' :: rest)
    rw [List.flatten_cons, List.append_assoc, hhead] at heq
    exact hd (List.cons.inj heq).1

private theorem opensLong_written {s : String} (h : TextWritten .toml s w)
    (hrest : rest.head? ≠ some '"') : opensLong (w ++ rest) = false := by
  have hlong := not_long h hrest
  obtain ⟨pieces, -, rfl⟩ := h
  unfold opensLong
  split
  · rename_i more heq
    exact absurd heq (hlong more)
  · rename_i heq
    simp at heq
  · rfl

theorem readText?_written {s : String} (h : TextWritten .toml s w)
    (hrest : rest.head? ≠ some '"') : readText? (w ++ rest) = some (some s, rest) := by
  have hlong := not_long h hrest
  obtain ⟨pieces, hpieces, rfl⟩ := h
  have hspan := spanBasic_pieces hpieces rest
  have hvalue := decodeBasic?_pieces hpieces
  simp only [List.cons_append, List.append_assoc, List.nil_append] at hlong ⊢
  rw [readText?]
  · simp [hspan, Quotation.value?, hvalue]
  · exact fun more heq => hlong more (by rw [heq])

theorem readText?_eq_none (hquote : c ≠ '"') (hapostrophe : c ≠ '\'') (rest : List Char) :
    readText? (c :: rest) = none := by
  unfold readText?
  split
  · rename_i heq
    exact absurd (List.cons.inj heq).1 hquote
  · rename_i heq
    exact absurd (List.cons.inj heq).1 hapostrophe
  · rename_i heq
    exact absurd (List.cons.inj heq).1 hquote
  · rename_i heq
    exact absurd (List.cons.inj heq).1 hapostrophe
  · rfl

theorem skipBlank_gap {gap : List Char} (hgap : gap ⊆ spaces .toml) (hc : isBlank c = false)
    (rest : List Char) : skipBlank (gap ++ c :: rest) = c :: rest := by
  have hblank : ∀ d ∈ spaces .toml, isBlank d = true := by decide
  rw [skipBlank, List.dropWhile_append_of_pos fun d hd => hblank d (hgap hd)]
  simp [hc]

/-! Keys. -/

def notKeys : List Char :=
  [' ', '\t', '\n', '\r', '#', ',', '.', '[', ']', '\x7d', byteOrderMark]

def OpensKey (c : Char) : Prop := c ∉ notKeys

instance (c : Char) : Decidable (OpensKey c) := inferInstanceAs (Decidable (_ ∉ _))

private theorem opensKey_of_isKeyChar (h : isKeyChar c = true) : OpensKey c :=
  Text.notMem_of_kind h (by decide)

private theorem not_endsKey_of_isKeyChar (h : isKeyChar c = true) : endsKey c = false :=
  decide_eq_false (Text.notMem_of_kind h (by decide))

theorem keyWritten_opens {key : String} (h : KeyWritten .toml key w) :
    ∃ c more, w = c :: more ∧ OpensKey c := by
  rcases h with ⟨pieces, -, rfl⟩ | ⟨-, hne, hchars, rfl⟩
  · exact ⟨'"', _, rfl, by decide⟩
  · obtain ⟨c, more, hkey⟩ : ∃ c more, key.toList = c :: more :=
      List.exists_cons_of_ne_nil (by simpa using hne)
    exact ⟨c, more, hkey, opensKey_of_isKeyChar (hchars c (hkey ▸ List.mem_cons_self))⟩

private theorem head?_behind_key {gap : List Char} (hgap : gap ⊆ spaces .toml) (hc : c ∈ ['=', ']'])
    (rest : List Char) : ∀ d ∈ (gap ++ c :: rest).head?, endsKey d = true ∧ d ≠ '"' := by
  have hspaces : ∀ d ∈ spaces .toml, endsKey d = true ∧ d ≠ '"' := by decide
  have hsigns : ∀ d ∈ ['=', ']'], endsKey d = true ∧ d ≠ '"' := by decide
  intro d hd
  cases gap with
  | nil =>
    obtain rfl := Option.some.inj hd
    exact hsigns _ hc
  | cons e more =>
    obtain rfl := Option.some.inj hd
    exact hspaces _ (hgap List.mem_cons_self)

/-- A written key is read as its name, up to the blanks behind it or the character that ends it. -/
theorem readKey?_written {key : String} (h : KeyWritten .toml key w)
    (hrest : ∀ d ∈ rest.head?, endsKey d = true ∧ d ≠ '"') :
    ∃ e, readKey? (w ++ rest) = some (⟨some key, e⟩, rest) := by
  rcases h with htext | ⟨-, hne, hchars, rfl⟩
  · have hquote : rest.head? ≠ some '"' := fun heq => (hrest _ heq).2 rfl
    rw [readKey?, readText?_written htext hquote, opensLong_written htext hquote]
    exact ⟨_, rfl⟩
  · have hnone : readText? (key.toList ++ rest) = none := by
      obtain ⟨c, more, hkey⟩ : ∃ c more, key.toList = c :: more :=
        List.exists_cons_of_ne_nil (by simpa using hne)
      have hc : isKeyChar c = true := hchars c (hkey ▸ List.mem_cons_self)
      rw [hkey]
      exact readText?_eq_none (Text.ne_of_kind hc (by decide)) (Text.ne_of_kind hc (by decide)) _
    have hname : ∀ c ∈ key.toList, (!endsKey c) = true := fun c hc => by
      rw [not_endsKey_of_isKeyChar (hchars c hc)]
      rfl
    have hend : ∀ c ∈ rest.head?, (!endsKey c) = false := fun c hc => by
      rw [(hrest c hc).1]
      rfl
    obtain ⟨htake, hdrop⟩ := Text.span_append_of_head hname hend
    have hall : key.toList.all isKeyChar = true := List.all_eq_true.mpr hchars
    have hempty : key.toList.isEmpty = false := by simpa using hne
    refine ⟨⟨key.toList ++ rest, rest⟩, ?_⟩
    rw [readKey?, hnone]
    simp [htake, hdrop, hall, hne]

theorem readPath_written {key : String} (h : KeyWritten .toml key w) {gap : List Char}
    (hgap : gap ⊆ spaces .toml) (hc : c ∈ ['=', ']']) {fuel : Nat} (hfuel : 0 < fuel)
    (rest : List Char) :
    ∃ e, readPath fuel (w ++ (gap ++ c :: rest)) = ⟨⟨[], ⟨some key, e⟩⟩, true, c :: rest⟩ := by
  obtain ⟨fuel, rfl⟩ := Nat.exists_eq_add_of_lt hfuel
  obtain ⟨e, hkey⟩ := readKey?_written h (head?_behind_key hgap hc rest)
  obtain ⟨d, more, rfl, hd⟩ := keyWritten_opens h
  have hblank : isBlank d = false := by
    have hall : ∀ e, isBlank e = true → ¬ OpensKey e := by
      intro e he
      rcases (by simpa [isBlank] using he : e = ' ' ∨ e = '\t') with rfl | rfl <;> decide
    exact Bool.eq_false_iff.mpr fun heq => hall d heq hd
  have hsigns : ∀ d ∈ ['=', ']'], isBlank d = false ∧ d ≠ '.' := by decide
  refine ⟨e, ?_⟩
  have hstart : skipBlank (d :: more ++ (gap ++ c :: rest)) = d :: more ++ (gap ++ c :: rest) := by
    simp [skipBlank, hblank]
  rw [readPath, hstart, Nat.zero_add, readPathWith, hkey]
  dsimp only
  rw [skipBlank_gap hgap (hsigns c hc).1, readDots]
  exact fun _ heq => (hsigns c hc).2 (List.cons.inj heq).1

end NativeBindings.Toml
