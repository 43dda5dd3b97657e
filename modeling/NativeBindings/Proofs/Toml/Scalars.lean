import NativeBindings.Proofs.Toml.Strings
import NativeBindings.Toml.Listings

set_option autoImplicit false
set_option relaxedAutoImplicit false

/-!
Values without parts in a TOML text. Main statements: texts, truth values, modes and default values
are read and decoded as what they write.
-/

namespace NativeBindings.Toml

open Writing

def Opens (c : Char) : Prop := c ∉ [' ', '\t', '\n', '\r', '#', ',', ']', '\x7d']

instance (c : Char) : Decidable (Opens c) := inferInstanceAs (Decidable (_ ∉ _))

def Ends (rest : List Char) : Prop :=
  ∃ gap c more, gap ⊆ spaces .toml ∧ c ∈ [',', ']', '\x7d', '\n'] ∧ rest = gap ++ c :: more

/-- A text is read as a value whose node has a property. The value may open so many lists and tables
inside each other. -/
structure Writes (depth : Nat) (P : Node → Prop) (w : List Char) : Prop where
  opens : ∃ c more, w = c :: more ∧ Opens c
  reads : ∀ fuel d rest, 2 * w.length ≤ fuel → depth ≤ d → Ends rest →
    ∃ v n, readValueWith? fuel d (w ++ rest) = some (v, rest) ∧ v.node = .ok n ∧ P n

abbrev Denotes {α : Type} (depth : Nat) (decode : Decoder α) (x : α) : List Char → Prop :=
  Writes depth fun n => decode n = .ok x

variable {w rest : List Char} {depth deeper : Nat} {P Q : Node → Prop}

theorem Writes.mono (h : Writes depth P w) (hdepth : depth ≤ deeper) (himp : ∀ n, P n → Q n) :
    Writes deeper Q w := by
  refine ⟨h.opens, fun fuel d rest hfuel hd hrest => ?_⟩
  obtain ⟨v, n, hread, hnode, hn⟩ := h.reads fuel d rest hfuel (hdepth.trans hd) hrest
  exact ⟨v, n, hread, hnode, himp n hn⟩

private theorem ends_head (h : Ends rest) : rest.head? ≠ some '"' := by
  have hspaces : ∀ d ∈ spaces .toml, d ≠ '"' := by decide
  have hclosing : ∀ d ∈ [',', ']', '\x7d', '\n'], d ≠ '"' := by decide
  obtain ⟨gap, c, more, hgap, hc, rfl⟩ := h
  cases gap with
  | nil => exact fun heq => hclosing c hc (Option.some.inj heq)
  | cons d rest => exact fun heq => hspaces d (hgap List.mem_cons_self) (Option.some.inj heq)

private theorem writes_scalar {s : Scalar} {c : Char} {more : List Char}
    (hopens : Opens c ∧ c ≠ '[' ∧ c ≠ '\x7b')
    (hread : ∀ rest, Ends rest →
      ∃ e, readScalar? (c :: more ++ rest) = some (.scalar e (some s), rest))
    (hP : ∀ e, P (.scalar e s)) : Writes 0 P (c :: more) := by
  obtain ⟨hc, hlist, htable⟩ := hopens
  refine ⟨⟨c, more, rfl, hc⟩, fun fuel d rest hfuel _ hrest => ?_⟩
  obtain ⟨e, hscalar⟩ := hread rest hrest
  obtain ⟨fuel, rfl⟩ : ∃ k, fuel = k + 1 := ⟨fuel - 1, by simp at hfuel; omega⟩
  refine ⟨.scalar e (some s), .scalar e s, ?_, rfl, hP e⟩
  rw [readValueWith?]
  · exact hscalar
  · exact fun _ heq _ => hlist (List.cons.inj heq).1
  · exact fun _ heq _ => htable (List.cons.inj heq).1
  · exact fun _ _ heq _ => hlist (List.cons.inj heq).1
  · exact fun _ _ heq _ => htable (List.cons.inj heq).1

theorem writes_text {s : String} (h : TextWritten .toml s w) (hP : ∀ e, P (.scalar e (.text s))) :
    Writes 0 P w := by
  have hread : ∀ rest, Ends rest →
      ∃ e, readScalar? (w ++ rest) = some (.scalar e (some (.text s)), rest) := by
    intro rest hrest
    rw [readScalar?, readText?_written h (ends_head hrest)]
    exact ⟨_, rfl⟩
  obtain ⟨pieces, -, rfl⟩ := h
  exact writes_scalar (by decide) hread hP

/-! Bare words. -/

def isBareChar (c : Char) : Bool := !(isBlank c || endsKey c || isQuote c)

private theorem wordFollows_of_ends (h : Ends rest) : wordFollows rest = false := by
  have hclosing : ∀ d ∈ [',', ']', '\x7d', '\n'], isBlank d = false ∧ endsKey d = true := by decide
  obtain ⟨gap, c, more, hgap, hc, rfl⟩ := h
  obtain ⟨hblank, hends⟩ := hclosing c hc
  rw [wordFollows, skipBlank_gap hgap hblank]
  simp [hends]

private theorem splitBare_ends (h : Ends rest) (atWord : Bool) :
    splitBare atWord rest = ([], rest) := by
  have hspaces : ∀ d ∈ spaces .toml, isBlank d = true := by decide
  have hclosing : ∀ d ∈ [',', ']', '\x7d', '\n'], isBlank d = false ∧ endsBare d = true := by
    decide
  obtain ⟨gap, c, more, hgap, hc, rfl⟩ := h
  cases gap with
  | nil =>
    obtain ⟨hblank, hends⟩ := hclosing c hc
    simp [splitBare, hblank, hends]
  | cons d gap =>
    obtain ⟨hd, hgap⟩ := List.cons_subset.mp hgap
    have hfollows : wordFollows (gap ++ c :: more) = false :=
      wordFollows_of_ends ⟨gap, c, more, hgap, hc, rfl⟩
    simp [splitBare, hspaces d hd, hfollows]

private theorem splitBare_word (h : ∀ c ∈ w, isBareChar c = true) (hrest : Ends rest)
    (atWord : Bool) :
    splitBare atWord (w ++ rest) = (w, rest) := by
  induction w generalizing atWord with
  | nil => exact splitBare_ends hrest atWord
  | cons c more ih =>
    obtain ⟨hc, hmore⟩ := List.forall_mem_cons.mp h
    simp only [isBareChar, Bool.not_eq_true', Bool.or_eq_false_iff] at hc
    obtain ⟨⟨hblank, hends⟩, hquote⟩ := hc
    simp [splitBare, hblank, endsBare, hends, hquote, ih hmore]

private theorem writes_bare {s : Scalar} (hne : w ≠ []) (hchars : ∀ c ∈ w, isBareChar c = true)
    (hvalue : bare? w = some s) (hP : ∀ e, P (.scalar e s)) : Writes 0 P w := by
  obtain ⟨c, more, rfl⟩ := List.exists_cons_of_ne_nil hne
  have hc : isBareChar c = true := hchars c List.mem_cons_self
  have hne : ∀ d, isBareChar d = false → c ≠ d := fun _ => Text.ne_of_kind hc
  have hopens : Opens c := Text.notMem_of_kind hc (by decide)
  refine writes_scalar ⟨hopens, hne _ (by decide), hne _ (by decide)⟩ (fun rest hrest => ?_) hP
  have hends : endsBare c = false := by
    simp only [isBareChar, Bool.not_eq_true', Bool.or_eq_false_iff] at hc
    simp [endsBare, hc.1.2]
  have hsplit := splitBare_word hchars hrest true
  rw [List.cons_append] at hsplit
  rw [readScalar?, List.cons_append, readText?_eq_none (hne _ (by decide)) (hne _ (by decide))]
  exact ⟨⟨c :: (more ++ rest), rest⟩, by simp [hends, hsplit, hvalue]⟩

private theorem writes_bool {b : Bool} (h : BoolWritten b w) (hP : ∀ e, P (.scalar e (.bool b))) :
    Writes 0 P w := by
  obtain rfl := h
  cases b with
  | false =>
    have hvalue : bare? "false".toList = some (.bool false) := by
      unfold bare?
      rw [if_neg (by decide), if_pos rfl]
    exact writes_bare (by decide) (by decide) hvalue hP
  | true =>
    have hvalue : bare? "true".toList = some (.bool true) := by
      unfold bare?
      rw [if_pos rfl]
    exact writes_bare (by decide) (by decide) hvalue hP

/-! Integers. -/

private theorem isBareChar_of_isDigit {c : Char} (h : c.isDigit = true) : isBareChar c = true := by
  have hblank : c ∉ [' ', '\t'] := Text.notMem_of_kind h (by decide)
  have hquote : c ∉ ['"', '\''] := Text.notMem_of_kind h (by decide)
  have hends : endsKey c = false := decide_eq_false (Text.notMem_of_kind h (by decide))
  simpa [isBareChar, isBlank, isQuote, hends] using And.intro hblank hquote

section Digits

variable {n : Nat} {digits : List Char} (h : Text.Decimal n digits)
include h

private theorem hasNeedlessZero_decimal : hasNeedlessZero digits = false := by
  unfold hasNeedlessZero
  split
  · exact absurd (h.plain _ rfl) (List.cons_ne_nil _ _)
  · rfl

private theorem dropUnderscores_decimal : dropUnderscores digits = digits := by
  rw [dropUnderscores, List.filter_eq_self]
  intro c hc
  simpa using Text.ne_of_kind (h.isDigit c hc) (by decide : Char.isDigit '_' = false)

private theorem dropWhile_isDigit_decimal : digits.dropWhile Char.isDigit = [] := by
  have hnone : ∀ c ∈ ([] : List Char).head?, c.isDigit = false := by simp
  simpa using (Text.span_append_of_head h.isDigit hnone).2

private theorem decimalInteger?_decimal (negative : Bool) :
    decimalInteger? ⟨negative, digits⟩ =
      some (integerScalar (if negative then -(n : Int) else n)) := by
  have hunderscores : ∀ behind, underscoresBetween Text.isHexDigit behind digits = true := by
    have hall := h.isDigit
    clear h
    induction digits with
    | nil => exact fun _ => rfl
    | cons c more ih =>
      obtain ⟨hc, hmore⟩ := List.forall_mem_cons.mp hall
      have hne : c ≠ '_' := Text.ne_of_kind hc (by decide)
      intro behind
      rw [underscoresBetween, if_neg hne]
      exact ih hmore _
  have hdigits : digits.all Char.isDigit = true := List.all_eq_true.mpr h.isDigit
  simp [decimalInteger?, hasNeedlessZero_decimal h, hunderscores, dropUnderscores_decimal h,
    hdigits, Magnitude.apply, h.value]

end Digits

private theorem ofText_int (n : Int) :
    Magnitude.ofText (toString n).toList = ⟨decide (n < 0), n.natAbs.repr.toList⟩ := by
  have hdecimal := Text.decimal_repr n.natAbs
  rw [Text.toList_toString_int]
  by_cases hsign : n < 0
  · rw [if_pos hsign, Magnitude.ofText, decide_eq_true hsign]
  · obtain ⟨c, more, hdigits⟩ := List.exists_cons_of_ne_nil hdecimal.ne_nil
    have hne : ∀ d : Char, d.isDigit = false → c ≠ d := fun _ =>
      Text.ne_of_kind (hdecimal.isDigit c (hdigits ▸ List.mem_cons_self))
    rw [if_neg hsign, hdigits, Magnitude.ofText, decide_eq_false hsign]
    · exact fun _ heq => hne '+' (by decide) (List.cons.inj heq).1
    · exact fun _ heq => hne '-' (by decide) (List.cons.inj heq).1

private theorem bare?_int {n : Int} (hlow : -(2 ^ 63) ≤ n) (hhigh : n < 2 ^ 63) :
    bare? (toString n).toList = some (.integer n) := by
  have hdecimal := Text.decimal_repr n.natAbs
  have hword : ∀ word : List Char, 'e' ∈ word → (toString n).toList ≠ word := by
    rintro _ hmem rfl
    exact absurd ((Text.int_chars n).2 'e' hmem) (by decide)
  have hbased : ∀ mark rest, (toString n).toList ≠ '0' :: mark :: rest := by
    intro mark rest heq
    rw [Text.toList_toString_int] at heq
    split at heq
    · exact absurd (List.cons.inj heq).1 (by decide)
    · exact absurd (hdecimal.plain _ heq) (List.cons_ne_nil _ _)
  have hdate : looksLikeDate (toString n).toList = false := by
    rw [looksLikeDate, ofText_int, dropWhile_isDigit_decimal hdecimal]
    rfl
  have hvalue : (if n < 0 then -(n.natAbs : Int) else n.natAbs) = n := by
    split <;> omega
  have hscalar : integerScalar n = .integer n := by
    have hfits : fitsSigned 128 n :=
      ⟨Int.le_trans (by decide) hlow, Int.lt_of_lt_of_le hhigh (by decide)⟩
    rw [integerScalar, if_pos (.inl hfits)]
  have hinteger : decimalInteger? ⟨decide (n < 0), n.natAbs.repr.toList⟩ = some (.integer n) := by
    rw [decimalInteger?_decimal hdecimal]
    simp only [decide_eq_true_iff]
    rw [hvalue, hscalar]
  have hnumber : decimal? (toString n).toList = some (.integer n) := by
    have hempty : ¬ n.natAbs.repr.toList.isEmpty = true := by
      rw [List.isEmpty_iff]
      exact hdecimal.ne_nil
    rw [decimal?, ofText_int, dropWhile_isDigit_decimal hdecimal]
    dsimp only
    rw [if_neg hempty, hinteger]
  unfold bare?
  rw [if_neg (hword _ (by decide)), if_neg (hword _ (by decide)), hdate, if_neg Bool.false_ne_true]
  split
  · rename_i heq
    exact absurd heq (hbased _ _)
  · rename_i heq
    exact absurd heq (hbased _ _)
  · rename_i heq
    exact absurd heq (hbased _ _)
  · rw [hnumber]
    rfl

/-! Modes and default values. -/

private theorem fitsSigned_of_bounds {n : Int} (hlow : -(2 ^ 63) ≤ n) (hhigh : n < 2 ^ 63) :
    fitsSigned 64 n :=
  ⟨hlow, hhigh⟩

theorem denotes_text {s : String} (h : TextWritten .toml s w) : Denotes 0 text s w :=
  writes_text h fun _ => rfl

theorem denotes_mode {m : Mode} (h : TextWritten .toml m.word w) : Denotes 0 mode m w := by
  refine writes_text h fun e => ?_
  rw [mode, modeAt, Mode.ofWord?_word]

theorem denotes_bool {b : Bool} (h : BoolWritten b w) : Denotes 0 bool b w :=
  writes_bool h fun _ => rfl

theorem denotes_defaultValue {v : DefaultValue} (h : DefaultWritten .toml v w) :
    Denotes 0 defaultValue v w := by
  cases v with
  | bool b => exact writes_bool h fun _ => rfl
  | float x => exact absurd h id
  | text s => exact writes_text h fun _ => rfl
  | int n =>
    obtain ⟨hlow, hhigh, rfl⟩ := h
    obtain ⟨hne, hchars⟩ := Text.int_chars n
    have hbare : ∀ c ∈ (toString n).toList, isBareChar c = true := fun c hc =>
      (hchars c hc).elim (fun hsign => hsign ▸ by decide) isBareChar_of_isDigit
    refine writes_bare hne hbare (bare?_int hlow hhigh) fun e => ?_
    rw [defaultValue, if_pos (fitsSigned_of_bounds hlow hhigh)]

theorem Denotes.optional {α : Type} {item : Decoder α} {x : α} (h : Denotes depth item x w) :
    Denotes depth (optional item) (some x) w :=
  Writes.mono h (Nat.le_refl depth) fun n hn => by rw [Toml.optional, hn]; rfl

end NativeBindings.Toml
