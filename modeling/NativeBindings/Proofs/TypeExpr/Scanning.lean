import Mathlib.Data.List.TakeWhile
import NativeBindings.Proofs.TypeExpr.Compact
import NativeBindings.Proofs.TypeExpr.Grammar
import NativeBindings.TypeExpr.Reader

set_option autoImplicit false
set_option relaxedAutoImplicit false

/-!
The tokens of a text are the words of the grammar. Main statements: a word in front of a text is its
first token, and the first token of a text is a word in front of it, blanks aside.
-/

namespace NativeBindings.TypeExpr.Grammar

theorem isBlank_iff {c : Char} : isBlank c = true ↔ c = ' ' ∨ c = '\t' := by
  simp [isBlank]

theorem isIdentStart_iff {c : Char} : isIdentStart c = true ↔ c.isAlpha = true ∨ c = '_' := by
  simp [isIdentStart]

theorem isIdentChar_iff {c : Char} : isIdentChar c = true ↔ WordChar c := by
  simp [isIdentChar, WordChar]

/-! Words that are as long as they can be are determined by the text. -/

theorem Longest.unique {kind : List Char → Prop} {v w text r s : List Char}
    (hv : Longest kind v text r) (hw : Longest kind w text s) : v = w ∧ r = s := by
  have hvp : v <+: text := ⟨r, hv.text_eq.symm⟩
  have hwp : w <+: text := ⟨s, hw.text_eq.symm⟩
  have hvw : v <+: w := List.prefix_of_prefix_length_le hvp hwp (hw.longest v hv.isWord hvp)
  have heq : v = w := hvw.eq_of_length_le (hv.longest w hw.isWord hwp)
  subst heq
  exact ⟨rfl, List.append_cancel_left (hv.text_eq.symm.trans hw.text_eq)⟩

theorem Identifier.wordChar {cs : List Char} (h : Identifier cs) : ∀ c ∈ cs, WordChar c := by
  obtain ⟨c, rest, rfl, hc, hrest⟩ := h
  intro d hd
  rcases List.mem_cons.mp hd with rfl | hd
  · refine hc.imp_left fun hc => ?_
    simp [Char.isAlphanum, hc]
  · exact hrest d hd

private theorem Identifier.concat {cs : List Char} (h : Identifier cs) {c : Char}
    (hc : WordChar c) :
    Identifier (cs ++ [c]) := by
  obtain ⟨d, rest, rfl, hd, hrest⟩ := h
  refine ⟨d, rest ++ [c], rfl, hd, fun e he => ?_⟩
  rcases List.mem_append.mp he with he | he
  · exact hrest e he
  · rwa [List.mem_singleton.mp he]

private theorem colon_not_wordChar : ¬ WordChar ':' := by simp [WordChar]

theorem QualifiedName.begins {cs : List Char} (h : QualifiedName cs) :
    ∃ c rest, cs = c :: rest ∧ isIdentStart c = true := by
  cases h with
  | identifier h =>
    obtain ⟨c, rest, rfl, hc, -⟩ := h
    exact ⟨c, rest, rfl, isIdentStart_iff.mpr hc⟩
  | qualified h _ =>
    obtain ⟨c, rest, rfl, hc, -⟩ := h
    exact ⟨c, _, rfl, isIdentStart_iff.mpr hc⟩

/-! Qualified names are taken as long as possible. -/

theorem spanName_wordChars {cs : List Char} (h : ∀ c ∈ cs, WordChar c) (rest : List Char) :
    spanName (cs ++ rest) = (cs ++ (spanName rest).1, (spanName rest).2) := by
  induction cs with
  | nil => rfl
  | cons c cs ih =>
    have hc : isIdentChar c = true := isIdentChar_iff.mpr (h c List.mem_cons_self)
    have hcolon : c ≠ ':' := by
      rintro rfl
      exact colon_not_wordChar (h ':' List.mem_cons_self)
    have htail := ih fun d hd => h d (List.mem_cons_of_mem _ hd)
    rw [List.cons_append, spanName]
    · simp [hc, htail]
    · intro d ds heq
      exact absurd heq hcolon

theorem spanName_colons {c : Char} (hc : isIdentStart c = true) (rest : List Char) :
    spanName (':' :: ':' :: c :: rest) =
      (':' :: ':' :: (spanName (c :: rest)).1, (spanName (c :: rest)).2) := by
  rw [spanName]
  simp [hc]

theorem QualifiedName.prefix_spanName {ds : List Char} (h : QualifiedName ds) (rest : List Char) :
    ds <+: (spanName (ds ++ rest)).1 := by
  induction h with
  | identifier h =>
    rw [spanName_wordChars h.wordChar]
    exact List.prefix_append _ _
  | @qualified cs ds hcs hds ih =>
    obtain ⟨c, tail, rfl, hc⟩ := hds.begins
    have hcolons := spanName_colons hc (tail ++ rest)
    rw [List.append_assoc, spanName_wordChars hcs.wordChar]
    simp only [List.cons_append] at hcolons ih ⊢
    rw [hcolons]
    exact (List.prefix_append_right_inj cs).mpr
      ((List.cons_prefix_cons.mpr ⟨rfl, List.cons_prefix_cons.mpr ⟨rfl, ih⟩⟩))

private theorem qualifiedName_append_spanName (cs : List Char) :
    (∀ w, Identifier w → QualifiedName (w ++ (spanName cs).1)) ∧
      (cs.head?.any isIdentStart = true → QualifiedName (spanName cs).1) := by
  fun_induction spanName cs with
  | case1 c rest hc p ih =>
    refine ⟨fun w hw => .qualified hw (ih.2 (by simpa using hc)), fun h => ?_⟩
    simp [isIdentStart] at h
  | case2 c rest hc =>
    refine ⟨fun w hw => ?_, fun h => ?_⟩
    · simpa using QualifiedName.identifier hw
    · simp [isIdentStart] at h
  | case3 c rest _ hc p ih =>
    have hword := isIdentChar_iff.mp hc
    refine ⟨fun w hw => ?_, fun h => ?_⟩
    · simpa [p] using ih.1 (w ++ [c]) (hw.concat hword)
    · have hstart : c.isAlpha = true ∨ c = '_' := isIdentStart_iff.mp (by simpa using h)
      exact ih.1 [c] ⟨c, [], rfl, hstart, by simp⟩
  | case4 c rest _ hc =>
    refine ⟨fun w hw => ?_, fun h => ?_⟩
    · simpa using QualifiedName.identifier hw
    · have hstart : isIdentStart c = true := by simpa using h
      have hword := isIdentChar_iff.mpr (Identifier.wordChar
        ⟨c, [], rfl, isIdentStart_iff.mp hstart, by simp⟩ c List.mem_cons_self)
      exact absurd hword hc
  | case5 => simpa using fun w hw => QualifiedName.identifier hw

theorem longest_spanName {c : Char} (hc : isIdentStart c = true) (rest : List Char) :
    Longest QualifiedName (spanName (c :: rest)).1 (c :: rest) (spanName (c :: rest)).2 where
  isWord := (qualifiedName_append_spanName (c :: rest)).2 (by simpa using hc)
  text_eq := (spanName_append (c :: rest)).symm
  longest := by
    rintro other hother ⟨after, hafter⟩
    have hprefix := hother.prefix_spanName after
    rw [hafter] at hprefix
    exact hprefix.length_le

theorem longest_digits {c : Char} (hc : c.isDigit = true) (rest : List Char) :
    Longest Digits (c :: rest.takeWhile Char.isDigit) (c :: rest)
      (rest.dropWhile Char.isDigit) where
  isWord := ⟨by simp, fun d hd => by
    rcases List.mem_cons.mp hd with rfl | hd
    · exact hc
    · exact List.mem_takeWhile_imp hd⟩
  text_eq := by rw [List.cons_append, List.takeWhile_append_dropWhile]
  longest := by
    rintro other ⟨hne, hdigits⟩ ⟨after, hafter⟩
    have hall : (c :: rest).takeWhile Char.isDigit = c :: rest.takeWhile Char.isDigit := by
      simp [hc]
    rw [← hall, ← hafter, List.takeWhile_append_of_pos hdigits]
    simp

/-! The first token of a text and the word in front of it. -/

def Word : Token → List Char → List Char → Prop
  | .name n, text, rest => NameWord n text rest
  | .number value, text, rest => NumberWord value text rest
  | .less, text, rest => text = '<' :: rest
  | .greater, text, rest => text = '>' :: rest
  | .comma, text, rest => text = ',' :: rest
  | .star, text, rest => text = '*' :: rest
  | .ampersand, text, rest => text = '&' :: rest
  | .openBracket, text, rest => text = '[' :: rest
  | .closeBracket, text, rest => text = ']' :: rest

theorem Gap.refl (text : List Char) : Gap text text := ⟨[], by simp, rfl⟩

theorem Gap.cons {c : Char} {text rest : List Char} (hc : isBlank c = true) (h : Gap text rest) :
    Gap (c :: text) rest := by
  obtain ⟨blanks, hblanks, rfl⟩ := h
  exact ⟨c :: blanks, List.forall_mem_cons.mpr ⟨isBlank_iff.mp hc, hblanks⟩, rfl⟩

theorem Gap.trans {text a rest : List Char} (h : Gap text a) (h' : Gap a rest) :
    Gap text rest := by
  obtain ⟨blanks, hblanks, rfl⟩ := h
  obtain ⟨more, hmore, rfl⟩ := h'
  exact ⟨blanks ++ more, List.forall_mem_append.mpr ⟨hblanks, hmore⟩, (List.append_assoc ..).symm⟩

theorem scan_gap {text rest : List Char} (h : Gap text rest) :
    Token.scan text = Token.scan rest := by
  obtain ⟨blanks, hblanks, rfl⟩ := h
  induction blanks with
  | nil => rfl
  | cons c blanks ih =>
    have hc : isBlank c = true := isBlank_iff.mpr (hblanks c List.mem_cons_self)
    rw [List.cons_append, Token.scan, if_pos hc]
    exact ih fun d hd => hblanks d (List.mem_cons_of_mem _ hd)

private theorem not_isBlank_of_isIdentStart {c : Char} (h : isIdentStart c = true) :
    isBlank c = false := by
  rw [Bool.eq_false_iff]
  intro hc
  rcases isBlank_iff.mp hc with rfl | rfl
  · exact absurd h (by decide)
  · exact absurd h (by decide)

private theorem not_isBlank_of_isDigit {c : Char} (h : c.isDigit = true) : isBlank c = false := by
  rw [Bool.eq_false_iff]
  intro hc
  rcases isBlank_iff.mp hc with rfl | rfl
  · exact absurd h (by decide)
  · exact absurd h (by decide)

private theorem scan_nameWord {n : String} {text rest : List Char} (h : NameWord n text rest) :
    Token.scan text = (Token.scan rest).map (.name n :: ·) := by
  obtain ⟨c, tail, hn, hc⟩ := h.isWord.begins
  have htext : text = c :: (tail ++ rest) := by rw [h.text_eq, hn, List.cons_append]
  subst htext
  obtain ⟨hword, hrest⟩ := (longest_spanName hc (tail ++ rest)).unique h
  rw [Token.scan, if_neg (by simp [not_isBlank_of_isIdentStart hc]), if_pos hc]
  simp only [hword, hrest, String.ofList_toList]

theorem scan_symbol {c : Char} {t : Token} (h : punctuation c = some t) (rest : List Char) :
    Token.scan (c :: rest) = (Token.scan rest).map (t :: ·) := by
  have hplain : isBlank c = false ∧ isIdentStart c = false ∧ c.isDigit = false := by
    unfold punctuation at h
    split at h <;> cases h <;> decide
  obtain ⟨hblank, hstart, hdigit⟩ := hplain
  simp [Token.scan, hblank, hstart, hdigit, h]

private theorem scan_numberWord {value : Nat} {text rest : List Char}
    (h : NumberWord value text rest) :
    Token.scan text = (Token.scan rest).map (.number value :: ·) := by
  obtain ⟨digits, hdigits, rfl⟩ := h
  cases hd : digits with
  | nil => exact absurd hd hdigits.isWord.1
  | cons c tail =>
    have hc : c.isDigit = true := hdigits.isWord.2 c (by simp [hd])
    have htext : text = c :: (tail ++ rest) := by rw [hdigits.text_eq, hd, List.cons_append]
    subst htext
    obtain ⟨hword, hrest⟩ := (longest_digits hc (tail ++ rest)).unique hdigits
    have hstart := not_isIdentStart_of_isDigit hc
    simp [Token.scan, not_isBlank_of_isDigit hc, hstart, hc, hword, hrest, ← hd]

theorem gap_of_scan_eq_nil {text : List Char} (h : Token.scan text = some []) : Gap text [] := by
  fun_induction Token.scan text with
  | case1 => exact Gap.refl []
  | case2 c rest hc ih => exact Gap.cons hc (ih h)
  | case3 | case4 | case5 => simp at h
  | case6 => cases h

theorem word_of_scan_eq_cons {text : List Char} {t : Token} {ts : List Token}
    (h : Token.scan text = some (t :: ts)) :
    ∃ a rest, Gap text a ∧ Word t a rest ∧ Token.scan rest = some ts := by
  fun_induction Token.scan text with
  | case1 => cases h
  | case2 c rest hc ih =>
    obtain ⟨a, after, hgap, hword⟩ := ih h
    exact ⟨a, after, Gap.cons hc hgap, hword⟩
  | case3 c rest _ hc p ih =>
    obtain ⟨us, hus, heq⟩ := Option.map_eq_some_iff.mp h
    obtain ⟨rfl, rfl⟩ := List.cons.inj heq
    refine ⟨c :: rest, p.2, Gap.refl _, ?_, hus⟩
    simpa [Word, NameWord] using longest_spanName hc rest
  | case4 c rest _ _ hc digits ih =>
    obtain ⟨us, hus, heq⟩ := Option.map_eq_some_iff.mp h
    obtain ⟨rfl, rfl⟩ := List.cons.inj heq
    exact ⟨c :: rest, _, Gap.refl _, ⟨digits, longest_digits hc rest, rfl⟩, hus⟩
  | case5 c rest _ _ _ u hu ih =>
    obtain ⟨us, hus, heq⟩ := Option.map_eq_some_iff.mp h
    obtain ⟨rfl, rfl⟩ := List.cons.inj heq
    refine ⟨c :: rest, rest, Gap.refl _, ?_, hus⟩
    unfold punctuation at hu
    split at hu <;> cases hu <;> rfl
  | case6 => cases h

/-! A name that begins with a `const` word is told by its first segment. -/

private theorem QualifiedName.concat {cs : List Char} (h : QualifiedName cs) {c : Char}
    (hc : WordChar c) : QualifiedName (cs ++ [c]) := by
  induction h with
  | identifier h => exact .identifier (h.concat hc)
  | qualified h _ ih =>
    rw [List.append_assoc]
    exact .qualified h ih

theorem NameWord.stops {n : String} {text rest : List Char} (h : NameWord n text rest) :
    ∀ c ∈ rest.head?, ¬ WordChar c := by
  intro c hc hword
  obtain ⟨tail, rfl⟩ : ∃ tail, rest = c :: tail := by
    cases rest with
    | nil => cases hc
    | cons d tail => exact ⟨tail, by rw [Option.some.inj hc]⟩
  have hle := h.longest _ (h.isWord.concat hword) ⟨tail, by simp [h.text_eq]⟩
  simp only [List.length_append, List.length_singleton] at hle
  omega

theorem QualifiedName.split {cs : List Char} (h : QualifiedName cs) :
    ∃ first more, cs = first ++ more ∧ Identifier first ∧
      (more = [] ∨ ∃ tail, more = ':' :: tail) := by
  cases h with
  | identifier h => exact ⟨cs, [], by simp, h, .inl rfl⟩
  | qualified h _ => exact ⟨_, _, rfl, h, .inr ⟨_, rfl⟩⟩

private theorem NameWord.takeWhile_eq {n : String} {text rest : List Char}
    (h : NameWord n text rest) :
    text.takeWhile isIdentChar = (firstSegment n).toList := by
  obtain ⟨first, more, hn, hfirst, hmore⟩ := h.isWord.split
  have hwords : ∀ c ∈ first, isIdentChar c = true := fun c hc =>
    isIdentChar_iff.mpr (hfirst.wordChar c hc)
  have hcolons : ∀ c ∈ first, decide (c ≠ ':') = true := by
    intro c hc
    simp only [ne_eq, decide_eq_true_eq]
    rintro rfl
    exact colon_not_wordChar (hfirst.wordChar ':' hc)
  have hstop : (more ++ rest).takeWhile isIdentChar = [] := by
    rcases hmore with rfl | ⟨tail, rfl⟩
    · cases rest with
      | nil => rfl
      | cons c rest =>
        have hc := h.stops c rfl
        rw [← isIdentChar_iff, Bool.not_eq_true] at hc
        simp [hc]
    · rfl
  have hsegment : more.takeWhile (· ≠ ':') = [] := by
    rcases hmore with rfl | ⟨tail, rfl⟩ <;> simp
  rw [firstSegment, String.toList_ofList, h.text_eq, hn, List.append_assoc,
    List.takeWhile_append_of_pos hwords, hstop, List.takeWhile_append_of_pos hcolons, hsegment]

private theorem wordChar_of_mem_const : ∀ c ∈ "const".toList, WordChar c := by
  have hletters : "const".toList = ['c', 'o', 'n', 's', 't'] := rfl
  intro c hc
  simp only [hletters, List.mem_cons, List.not_mem_nil, or_false] at hc
  rcases hc with rfl | rfl | rfl | rfl | rfl <;> decide

private theorem exists_constWord_iff {text : List Char} :
    (∃ a, ConstWord text a) ↔ text.takeWhile isIdentChar = "const".toList := by
  constructor
  · rintro ⟨a, rfl, hstop⟩
    have ha : a.takeWhile isIdentChar = [] := by
      cases a with
      | nil => rfl
      | cons c a =>
        have hc := hstop c rfl
        rw [← isIdentChar_iff, Bool.not_eq_true] at hc
        simp [hc]
    have hword : ∀ c ∈ "const".toList, isIdentChar c = true :=
      fun c hc => isIdentChar_iff.mpr (wordChar_of_mem_const c hc)
    rw [List.takeWhile_append_of_pos hword, ha, List.append_nil]
  · intro h
    refine ⟨text.dropWhile isIdentChar, ?_, fun c hc hword => ?_⟩
    · rw [← h, List.takeWhile_append_dropWhile]
    · have hnot := List.head?_dropWhile_not isIdentChar text
      rw [hc] at hnot
      simp [isIdentChar_iff.mpr hword] at hnot

theorem NameWord.const_iff {n : String} {text rest : List Char} (h : NameWord n text rest) :
    (∃ a, ConstWord text a) ↔ firstSegment n = "const" := by
  rw [exists_constWord_iff, h.takeWhile_eq, String.toList_inj]

theorem NameWord.constWord {text rest : List Char} (h : NameWord "const" text rest) :
    ConstWord text rest := ⟨h.text_eq, h.stops⟩

private theorem scan_colon (rest : List Char) : Token.scan (':' :: rest) = none := by
  rw [Token.scan]
  simp [isBlank, isIdentStart, punctuation]

theorem ConstWord.nameWord {text rest : List Char} (h : ConstWord text rest) {ts : List Token}
    (hts : Token.scan rest = some ts) : NameWord "const" text rest := by
  have hspan : spanName rest = ([], rest) := by
    cases rest with
    | nil => rfl
    | cons c rest =>
      have hc := h.2 c rfl
      rw [← isIdentChar_iff, Bool.not_eq_true] at hc
      have hcolon : c ≠ ':' := by
        rintro rfl
        rw [scan_colon] at hts
        cases hts
      rw [spanName]
      · simp [hc]
      · intro _ _ heq
        exact absurd heq hcolon
  have htext : spanName text = ("const".toList, rest) := by
    rw [h.1, spanName_wordChars wordChar_of_mem_const, hspan, List.append_nil]
  have hlongest := longest_spanName (c := 'c') (by decide) ("onst".toList ++ rest)
  have heq : text = 'c' :: ("onst".toList ++ rest) := h.1
  rw [← heq, htext] at hlongest
  exact hlongest

private theorem scan_word {t : Token} {text rest : List Char} (h : Word t text rest) :
    Token.scan text = (Token.scan rest).map (t :: ·) := by
  cases t with
  | name n => exact scan_nameWord h
  | number value => exact scan_numberWord h
  | less | greater | comma | star | ampersand | openBracket | closeBracket =>
    subst h
    exact scan_symbol rfl rest

theorem scan_gap_word (t : Token) {text a rest : List Char} {ts : List Token}
    (hgap : Gap text a) (hword : Word t a rest) (hrest : Token.scan rest = some ts) :
    Token.scan text = some (t :: ts) := by
  rw [scan_gap hgap, scan_word hword, hrest]
  rfl

end NativeBindings.TypeExpr.Grammar
