import NativeBindings.HostName
import NativeBindings.Proofs.Signature.Text
import NativeBindings.Proofs.Text.Letters

set_option autoImplicit false
set_option relaxedAutoImplicit false

/-!
The host names of identifiers. Main statement: an identifier is its own host name, with one more
underscore in front of a capital, so that two of them have the same host name only if one is the
other with such an underscore.
-/

namespace NativeBindings.HostName

/-- A name that begins with a capital. -/
def Capital (s : String) : Prop := s.toList.head?.any Char.isUpper = true

instance (s : String) : Decidable (Capital s) :=
  inferInstanceAs (Decidable (s.toList.head?.any Char.isUpper = true))

private theorem not_isNameStart_of_isUpper {c : Char} (h : c.isUpper = true) :
    isNameStart c = false := by
  have hlower := Text.isLower_eq_false_of_isUpper h
  have hunderscore : c ≠ '_' := by
    rintro rfl
    cases h
  simp [isNameStart, hlower, hunderscore]

private theorem isNameStart_of_isIdentStart {c : Char} (h : TypeExpr.isIdentStart c = true)
    (hupper : c.isUpper = false) : isNameStart c = true := by
  rcases Bool.or_eq_true_iff.mp h with halpha | hunderscore
  · rcases Bool.or_eq_true_iff.mp halpha with hcapital | hlower
    · rw [hupper] at hcapital
      cases hcapital
    · exact Bool.or_eq_true_iff.mpr (.inl hlower)
  · exact Bool.or_eq_true_iff.mpr (.inr hunderscore)

private theorem isNameStart_eq_not_isUpper {c : Char} (h : TypeExpr.isIdentStart c = true) :
    isNameStart c = !c.isUpper := by
  cases hupper : c.isUpper with
  | true => exact not_isNameStart_of_isUpper hupper
  | false => exact isNameStart_of_isIdentStart h hupper

private theorem map_nameChar_of_isIdentifier {s : String} (h : IsIdentifier s) :
    s.toList.map nameChar = s.toList := by
  conv_rhs => rw [← List.map_id s.toList]
  refine List.map_congr_left fun c hc => ?_
  exact if_pos (h.2 c hc)

section Identifier

variable {s t : String} (hs : IsIdentifier s)
include hs

private theorem any_isNameStart_iff : s.toList.head?.any isNameStart = true ↔ ¬ Capital s := by
  obtain ⟨hbegins, -⟩ := hs
  unfold Capital
  cases hcs : s.toList with
  | nil => simp [TypeExpr.Begins, hcs] at hbegins
  | cons c rest =>
    have hstart : TypeExpr.isIdentStart c = true := by simpa [TypeExpr.Begins, hcs] using hbegins
    simp [isNameStart_eq_not_isUpper hstart]

theorem ofName_of_capital (hcapital : Capital s) : ofName s = "_" ++ s := by
  have hstart : ¬ s.toList.head?.any isNameStart = true := fun h =>
    (any_isNameStart_iff hs).mp h hcapital
  apply String.toList_injective
  rw [ofName, nameChars, if_neg hstart, map_nameChar_of_isIdentifier hs]
  simp

theorem ofName_of_not_capital (hcapital : ¬ Capital s) : ofName s = s := by
  have hstart := (any_isNameStart_iff hs).mpr hcapital
  rw [ofName, nameChars, if_pos hstart, map_nameChar_of_isIdentifier hs, String.ofList_toList]

end Identifier

theorem not_capital_underscore (s : String) : ¬ Capital ("_" ++ s) := by
  simp [Capital]

/-- Two identifiers have the same host name just if they are the same, or one of them is the other
with an underscore in front of its capital. -/
theorem ofName_eq_iff {s t : String} (hs : IsIdentifier s) (ht : IsIdentifier t) :
    ofName s = ofName t ↔
      s = t ∨ Capital s ∧ t = "_" ++ s ∨ Capital t ∧ s = "_" ++ t := by
  constructor
  · intro h
    by_cases hcs : Capital s <;> by_cases hct : Capital t
    · rw [ofName_of_capital hs hcs, ofName_of_capital ht hct] at h
      exact .inl (by simpa [String.ext_iff] using h)
    · rw [ofName_of_capital hs hcs, ofName_of_not_capital ht hct] at h
      exact .inr (.inl ⟨hcs, h.symm⟩)
    · rw [ofName_of_not_capital hs hcs, ofName_of_capital ht hct] at h
      exact .inr (.inr ⟨hct, h⟩)
    · rw [ofName_of_not_capital hs hcs, ofName_of_not_capital ht hct] at h
      exact .inl h
  · rintro (rfl | ⟨hcapital, rfl⟩ | ⟨hcapital, rfl⟩)
    · rfl
    · rw [ofName_of_capital hs hcapital, ofName_of_not_capital ht (not_capital_underscore s)]
    · rw [ofName_of_capital ht hcapital, ofName_of_not_capital hs (not_capital_underscore t)]

theorem ofParameter_eq_iff {s t : String} :
    ofParameter s = ofParameter t ↔ ofName s = ofName t := by
  simp [ofParameter, String.ext_iff]

end NativeBindings.HostName
