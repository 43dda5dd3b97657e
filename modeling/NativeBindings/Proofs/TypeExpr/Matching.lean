import Mathlib.Data.List.TakeWhile
import NativeBindings.TypeExpr.Expectation

set_option autoImplicit false
set_option relaxedAutoImplicit false

/-!
Matching the grammar of type texts without fuel. Main statement: where fuel covers the nesting of a
pattern and every character of the text, a run of the pattern comes to what the grammar gives.
-/

namespace NativeBindings.TypeExpr.Expectation

/-- `Gives spaced pattern place result`: by ordered choice, without giving back, the pattern matches
at the place up to the place `result`, or fails there. -/
inductive Gives : Bool → Pattern → Place → Option Place → Prop
  | one {spaced : Bool} {accepts : Char → Bool} {c : Char} {rest : List Char} {column : Nat} :
      accepts c = true → Gives spaced (.one accepts) ⟨c :: rest, column⟩ (some ⟨rest, column + 1⟩)
  | notOne {spaced : Bool} {accepts : Char → Bool} {place : Place} :
      (∀ c ∈ place.rest.head?, accepts c = false) → Gives spaced (.one accepts) place none
  | text {spaced : Bool} {cs rest : List Char} {column : Nat} :
      Gives spaced (.text cs) ⟨cs ++ rest, column⟩ (some ⟨rest, column + cs.length⟩)
  | notText {spaced : Bool} {cs : List Char} {place : Place} :
      ¬ cs <+: place.rest → Gives spaced (.text cs) place none
  | finish {spaced : Bool} {column : Nat} : Gives spaced .finish ⟨[], column⟩ (some ⟨[], column⟩)
  | notFinish {spaced : Bool} {place : Place} : place.rest ≠ [] → Gives spaced .finish place none
  | notAhead {spaced : Bool} {accepts : Char → Bool} {place : Place} :
      (∀ c ∈ place.rest.head?, accepts c = false) →
      Gives spaced (.notAhead accepts) place (some place)
  | ahead {spaced : Bool} {accepts : Char → Bool} {c : Char} {place : Place} :
      c ∈ place.rest.head? → accepts c = true → Gives spaced (.notAhead accepts) place none
  | both {spaced : Bool} {first second : Pattern} {place middle : Place} {result : Option Place} :
      Gives spaced first place (some middle) →
      Gives spaced second (skipBlanks spaced middle) result →
      Gives spaced (.both first second) place result
  | notBoth {spaced : Bool} {first second : Pattern} {place : Place} :
      Gives spaced first place none → Gives spaced (.both first second) place none
  | first {spaced : Bool} {first second : Pattern} {place next : Place} :
      Gives spaced first place (some next) →
      Gives spaced (.either first second) place (some next)
  | second {spaced : Bool} {first second : Pattern} {place : Place} {result : Option Place} :
      Gives spaced first place none → Gives spaced second place result →
      Gives spaced (.either first second) place result
  | optional {spaced : Bool} {inner : Pattern} {place next : Place} :
      Gives spaced inner place (some next) → Gives spaced (.optional inner) place (some next)
  | notOptional {spaced : Bool} {inner : Pattern} {place : Place} :
      Gives spaced inner place none → Gives spaced (.optional inner) place (some place)
  /-- Blanks behind the last match are given back. -/
  | many {spaced : Bool} {inner : Pattern} {place next last : Place} :
      Gives spaced inner place (some next) →
      Gives spaced (.many inner) (skipBlanks spaced next) (some last) →
      Gives spaced (.many inner) place
        (some (if last.column = (skipBlanks spaced next).column then next else last))
  | notMany {spaced : Bool} {inner : Pattern} {place : Place} :
      Gives spaced inner place none → Gives spaced (.many inner) place (some place)
  | phrase {spaced : Bool} {p : Phrase} {place : Place} {result : Option Place} :
      Gives (!p.isWord) p.body place result → Gives spaced (.phrase p) place result

/-! What a match takes. -/

/-- The second place lies at or behind the first one, in the same text. -/
def Reaches (place next : Place) : Prop :=
  ∃ taken, place.rest = taken ++ next.rest ∧ next.column = place.column + taken.length

namespace Reaches

variable {place middle next : Place}

theorem refl (place : Place) : Reaches place place := ⟨[], rfl, rfl⟩

theorem trans (h : Reaches place middle) (h' : Reaches middle next) : Reaches place next := by
  obtain ⟨taken, hrest, hcolumn⟩ := h
  obtain ⟨more, hrest', hcolumn'⟩ := h'
  refine ⟨taken ++ more, by rw [hrest, hrest', List.append_assoc], ?_⟩
  rw [hcolumn', hcolumn, List.length_append, Nat.add_assoc]

theorem length_le (h : Reaches place next) : next.rest.length ≤ place.rest.length := by
  obtain ⟨taken, hrest, -⟩ := h
  rw [hrest, List.length_append]
  omega

theorem eq_of_column (h : Reaches place next) (hcolumn : next.column = place.column) :
    next = place := by
  obtain ⟨place, column⟩ := place
  obtain ⟨next, column'⟩ := next
  obtain ⟨taken, hrest, htaken⟩ := h
  obtain rfl : taken = [] := List.eq_nil_of_length_eq_zero (by simp_all)
  obtain rfl : place = next := hrest
  obtain rfl : column' = column := hcolumn
  rfl

end Reaches

theorem reaches_skipBlanks (spaced : Bool) (place : Place) :
    Reaches place (skipBlanks spaced place) := by
  unfold skipBlanks
  split
  · exact ⟨place.rest.takeWhile isBlank, List.takeWhile_append_dropWhile.symm, rfl⟩
  · exact .refl place

@[simp] theorem skipBlanks_false (place : Place) : skipBlanks false place = place := rfl

/-- Patterns that take at least one character wherever they match. -/
def Pattern.takes : Pattern → Bool
  | .one _ => true
  | .text cs => !cs.isEmpty
  | .finish | .notAhead _ | .optional _ | .many _ => false
  | .both first second => first.takes || second.takes
  | .either first second => first.takes && second.takes
  | .phrase p => decide (p ≠ .endOfInput)

private theorem Phrase.takes_body (p : Phrase) :
    (Pattern.phrase p).takes = true → p.body.takes = true := by
  cases p <;> decide

theorem Gives.reaches {spaced : Bool} {pattern : Pattern} {place next : Place}
    (h : Gives spaced pattern place (some next)) :
    Reaches place next ∧ (pattern.takes = true → next.rest.length < place.rest.length) := by
  generalize hresult : some next = result at h
  induction h generalizing next with
  | notOne | notText | notFinish | ahead | notBoth => cases hresult
  | one =>
    cases hresult
    exact ⟨⟨[_], rfl, rfl⟩, fun _ => by simp⟩
  | @text _ cs rest column =>
    cases hresult
    refine ⟨⟨cs, rfl, rfl⟩, fun htakes => ?_⟩
    cases cs with
    | nil => simp [Pattern.takes] at htakes
    | cons c cs =>
      simp only [List.length_append, List.length_cons]
      omega
  | finish | notAhead | notOptional | notMany =>
    cases hresult
    exact ⟨.refl _, fun htakes => by simp [Pattern.takes] at htakes⟩
  | @both spaced _ _ _ middle _ _ _ ihFirst ihSecond =>
    obtain ⟨hfirst, hfirst'⟩ := ihFirst rfl
    obtain ⟨hsecond, hsecond'⟩ := ihSecond hresult
    have hskip := reaches_skipBlanks spaced middle
    refine ⟨hfirst.trans (hskip.trans hsecond), fun htakes => ?_⟩
    have hlengths := And.intro hfirst.length_le (And.intro hskip.length_le hsecond.length_le)
    rcases Bool.or_eq_true_iff.mp htakes with htakes | htakes
    · have hlt := hfirst' htakes
      omega
    · have hlt := hsecond' htakes
      omega
  | first _ ih =>
    obtain ⟨hfirst, hfirst'⟩ := ih hresult
    exact ⟨hfirst, fun htakes => hfirst' (Bool.and_eq_true_iff.mp htakes).1⟩
  | second _ _ _ ih =>
    obtain ⟨hsecond, hsecond'⟩ := ih hresult
    exact ⟨hsecond, fun htakes => hsecond' (Bool.and_eq_true_iff.mp htakes).2⟩
  | optional _ ih =>
    exact ⟨(ih hresult).1, fun htakes => by simp [Pattern.takes] at htakes⟩
  | @many spaced _ _ next _ _ _ ih ihAgain =>
    cases hresult
    refine ⟨?_, fun htakes => by simp [Pattern.takes] at htakes⟩
    split
    · exact (ih rfl).1
    · exact (ih rfl).1.trans ((reaches_skipBlanks spaced next).trans (ihAgain rfl).1)
  | @phrase _ p _ _ _ ih =>
    obtain ⟨hbody, hbody'⟩ := ih hresult
    exact ⟨hbody, fun htakes => hbody' (p.takes_body htakes)⟩

/-! How much fuel a pattern needs. -/

/-- The fuel for a phrase up to the first character that it takes. -/
def Phrase.need : Phrase → Nat
  | .endOfInput | .pointer | .reference => 2
  | .constWord | .identifier | .number | .extent => 3
  | .qualifiedName => 5
  | .modifier => 6
  | .template => 7
  | .atom => 9
  | .type => 12
  | .argument => 14
  | .wholeType => 15

def Pattern.need : Pattern → Nat
  | .one _ | .text _ | .finish | .notAhead _ => 1
  | .both first second => max first.need (if first.takes then 0 else second.need) + 1
  | .either first second => max first.need second.need + 1
  | .optional inner | .many inner => inner.need + 1
  | .phrase p => p.need

/-- The fuel for a character covers every part that begins behind one. -/
def Pattern.fits : Pattern → Bool
  | .one _ | .text _ | .finish | .notAhead _ | .phrase _ => true
  | .both first second => first.fits && second.fits && decide (second.need ≤ 64)
  | .either first second => first.fits && second.fits
  | .optional inner => inner.fits
  | .many inner => inner.fits && inner.takes && decide (inner.need < 64)

private theorem Phrase.fits_body (p : Phrase) : p.body.fits = true ∧ p.body.need < p.need := by
  cases p <;> decide

private theorem Pattern.need_pos (pattern : Pattern) : 0 < pattern.need := by
  cases pattern with
  | phrase p => cases p <;> decide
  | _ => simp [need]

theorem Gives.exists_of_many {spaced : Bool} {inner : Pattern} {place : Place}
    {result : Option Place} (h : Gives spaced (.many inner) place result) :
    ∃ last, result = some last := by
  cases h with
  | many | notMany => exact ⟨_, rfl⟩

/-- An amount of fuel runs every pattern that it is enough for as the grammar gives it. -/
def Enough (fuel : Nat) : Prop :=
  ∀ (spaced : Bool) (pattern : Pattern) (place : Place) (trace : Trace), pattern.fits = true →
    64 * place.rest.length + pattern.need ≤ fuel →
    Gives spaced pattern place (pattern.run fuel spaced place trace).1

section Step

variable {fuel : Nat} (spaced : Bool) {a b : Pattern} (place : Place) (trace : Trace)

private theorem gives_run_one (accepts : Char → Bool) :
    Gives spaced (.one accepts) place
      ((Pattern.one accepts).run (fuel + 1) spaced place trace).1 := by
  obtain ⟨rest, column⟩ := place
  cases rest with
  | nil => exact .notOne (by simp)
  | cons c rest =>
    rw [Pattern.run]
    dsimp only
    by_cases hc : accepts c = true
    · rw [if_pos hc]
      exact .one hc
    · rw [if_neg hc]
      exact .notOne (by simpa using hc)

private theorem gives_run_text (cs : List Char) :
    Gives spaced (.text cs) place ((Pattern.text cs).run (fuel + 1) spaced place trace).1 := by
  obtain ⟨rest, column⟩ := place
  rw [Pattern.run]
  dsimp only
  by_cases hprefix : cs <+: rest
  · rw [if_pos (List.isPrefixOf_iff_prefix.mpr hprefix)]
    obtain ⟨rest, rfl⟩ := hprefix
    rw [List.drop_left]
    exact .text
  · rw [if_neg fun h => hprefix (List.isPrefixOf_iff_prefix.mp h)]
    exact .notText hprefix

private theorem gives_run_finish :
    Gives spaced .finish place (Pattern.finish.run (fuel + 1) spaced place trace).1 := by
  obtain ⟨rest, column⟩ := place
  cases rest with
  | nil => exact .finish
  | cons c rest => exact .notFinish (by simp)

private theorem gives_run_notAhead (accepts : Char → Bool) :
    Gives spaced (.notAhead accepts) place
      ((Pattern.notAhead accepts).run (fuel + 1) spaced place trace).1 := by
  obtain ⟨rest, column⟩ := place
  cases rest with
  | nil => exact .notAhead (by simp)
  | cons c rest =>
    rw [Pattern.run]
    by_cases hc : accepts c = true
    · simpa [hc] using Gives.ahead rfl hc
    · simpa [hc] using Gives.notAhead (by simpa using hc)

private theorem gives_run_both (h : Enough fuel) (hfits : (Pattern.both a b).fits = true)
    (hfuel : 64 * place.rest.length + (Pattern.both a b).need ≤ fuel + 1) :
    Gives spaced (.both a b) place ((Pattern.both a b).run (fuel + 1) spaced place trace).1 := by
  simp only [Pattern.fits, Bool.and_eq_true, decide_eq_true_eq] at hfits
  obtain ⟨⟨ha, hb⟩, hroom⟩ := hfits
  rw [Pattern.need] at hfuel
  have hfirst := h spaced a place trace ha (by omega)
  rw [Pattern.run]
  rcases hrun : a.run fuel spaced place trace with ⟨_ | middle, after⟩
  · rw [hrun] at hfirst
    exact .notBoth hfirst
  · rw [hrun] at hfirst
    obtain ⟨hreaches, htakes⟩ := hfirst.reaches
    have hlength := hreaches.length_le
    have hskip := (reaches_skipBlanks spaced middle).length_le
    refine .both hfirst (h spaced b (skipBlanks spaced middle) after hb ?_)
    by_cases ht : a.takes = true
    · have hlt := htakes ht
      omega
    · rw [if_neg ht] at hfuel
      omega

private theorem gives_run_either (h : Enough fuel) (hfits : (Pattern.either a b).fits = true)
    (hfuel : 64 * place.rest.length + (Pattern.either a b).need ≤ fuel + 1) :
    Gives spaced (.either a b) place
      ((Pattern.either a b).run (fuel + 1) spaced place trace).1 := by
  obtain ⟨ha, hb⟩ := Bool.and_eq_true_iff.mp hfits
  rw [Pattern.need] at hfuel
  have hfirst := h spaced a place trace ha (by omega)
  rw [Pattern.run]
  rcases hrun : a.run fuel spaced place trace with ⟨_ | next, after⟩
  · rw [hrun] at hfirst
    exact .second hfirst (h spaced b place after hb (by omega))
  · rw [hrun] at hfirst
    exact .first hfirst

private theorem gives_run_optional (h : Enough fuel) (hfits : (Pattern.optional a).fits = true)
    (hfuel : 64 * place.rest.length + (Pattern.optional a).need ≤ fuel + 1) :
    Gives spaced (.optional a) place
      ((Pattern.optional a).run (fuel + 1) spaced place trace).1 := by
  rw [Pattern.need] at hfuel
  have hinner := h spaced a place trace hfits (by omega)
  rw [Pattern.run]
  rcases hrun : a.run fuel spaced place trace with ⟨_ | next, after⟩
  · rw [hrun] at hinner
    exact .notOptional hinner
  · rw [hrun] at hinner
    exact .optional hinner

private theorem gives_run_many (h : Enough fuel) (hfits : (Pattern.many a).fits = true)
    (hfuel : 64 * place.rest.length + (Pattern.many a).need ≤ fuel + 1) :
    Gives spaced (.many a) place ((Pattern.many a).run (fuel + 1) spaced place trace).1 := by
  have hmany := hfits
  simp only [Pattern.fits, Bool.and_eq_true, decide_eq_true_eq] at hfits
  obtain ⟨⟨hinner, htakes⟩, hroom⟩ := hfits
  rw [Pattern.need] at hfuel
  have hfirst := h spaced a place trace hinner (by omega)
  rw [Pattern.run]
  rcases hrun : a.run fuel spaced place trace with ⟨_ | next, after⟩
  · rw [hrun] at hfirst
    exact .notMany hfirst
  · rw [hrun] at hfirst
    have hlt := hfirst.reaches.2 htakes
    have hskip := (reaches_skipBlanks spaced next).length_le
    have hrest := h spaced (.many a) (skipBlanks spaced next) after hmany
      (by rw [Pattern.need]; omega)
    dsimp only
    rcases hagain : (Pattern.many a).run fuel spaced (skipBlanks spaced next) after with
      ⟨_ | last, after'⟩
    · rw [hagain] at hrest
      obtain ⟨_, hnone⟩ := hrest.exists_of_many
      cases hnone
    · rw [hagain] at hrest
      exact .many hfirst hrest

private theorem gives_run_phrase (h : Enough fuel) (p : Phrase)
    (hfuel : 64 * place.rest.length + (Pattern.phrase p).need ≤ fuel + 1) :
    Gives spaced (.phrase p) place ((Pattern.phrase p).run (fuel + 1) spaced place trace).1 := by
  obtain ⟨hbody, hneed⟩ := p.fits_body
  rw [Pattern.need] at hfuel
  have hgives := h (!p.isWord) p.body place trace hbody (by omega)
  rw [Pattern.run]
  rcases hrun : p.body.run fuel (!p.isWord) place trace with ⟨_ | next, after⟩
  · rw [hrun] at hgives
    exact .phrase hgives
  · rw [hrun] at hgives
    exact .phrase hgives

end Step

theorem gives_run (fuel : Nat) : Enough fuel := by
  induction fuel with
  | zero =>
    intro spaced pattern place trace _ hfuel
    have hpos := pattern.need_pos
    omega
  | succ fuel ih =>
    intro spaced pattern place trace hfits hfuel
    cases pattern with
    | one accepts => exact gives_run_one spaced place trace accepts
    | text cs => exact gives_run_text spaced place trace cs
    | finish => exact gives_run_finish spaced place trace
    | notAhead accepts => exact gives_run_notAhead spaced place trace accepts
    | both => exact gives_run_both spaced place trace ih hfits hfuel
    | either => exact gives_run_either spaced place trace ih hfits hfuel
    | optional => exact gives_run_optional spaced place trace ih hfits hfuel
    | many => exact gives_run_many spaced place trace ih hfits hfuel
    | phrase p => exact gives_run_phrase spaced place trace ih p hfuel

end NativeBindings.TypeExpr.Expectation
