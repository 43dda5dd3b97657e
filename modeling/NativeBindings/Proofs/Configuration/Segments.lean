import NativeBindings.Configuration.Load
import NativeBindings.Proofs.Text.Letters

set_option autoImplicit false
set_option relaxedAutoImplicit false

/-!
The names of a loaded configuration. Whatever a configuration file states, each is a segment of a
module name: a capital letter, then letters, digits and underscores.
-/

namespace NativeBindings.Configuration

def isSegmentChar (c : Char) : Bool := c.isAlphanum || c == '_'

/-- A text begins with a capital letter and has letters, digits and underscores only. -/
def IsSegment (s : String) : Prop :=
  s.toList.head?.any Char.isUpper = true ∧ s.toList.all isSegmentChar = true

instance (s : String) : Decidable (IsSegment s) := inferInstanceAs (Decidable (_ ∧ _))

private theorem isSegmentChar_of_isUpper {c : Char} (h : c.isUpper = true) :
    isSegmentChar c = true := by
  simp [isSegmentChar, Char.isAlphanum, Text.isAlpha_of_isUpper h]

private theorem isSegmentChar_segmentChar (c : Char) : isSegmentChar (segmentChar c) = true := by
  unfold segmentChar
  split
  · assumption
  · decide

private theorem segmentStart_form (c : Char) :
    ∃ first more, segmentStart c = first :: more ∧ first.isUpper = true ∧
      ∀ d ∈ more, isSegmentChar d = true := by
  unfold segmentStart
  split
  · rename_i hc
    exact ⟨c.toUpper, [], rfl, Text.isUpper_toUpper hc, by simp⟩
  · split
    · rename_i hc
      refine ⟨'M', [c], rfl, by decide, ?_⟩
      intro d hd
      rw [List.mem_singleton.mp hd]
      rcases Bool.or_eq_true_iff.mp hc with hc | hc
      · simp [isSegmentChar, Char.isAlphanum, hc]
      · simp [isSegmentChar, hc]
    · exact ⟨'M', [], rfl, by decide, by simp⟩

private theorem segment_isSegment (s : List Char) : IsSegment (segment s) := by
  cases s with
  | nil => decide
  | cons c rest =>
    obtain ⟨first, more, hstart, hfirst, hmore⟩ := segmentStart_form c
    simp only [segment, IsSegment, hstart, String.toList_ofList, List.cons_append]
    refine ⟨hfirst, List.all_eq_true.mpr ?_⟩
    intro d hd
    rcases List.mem_cons.mp hd with rfl | hd
    · exact isSegmentChar_of_isUpper hfirst
    · rcases List.mem_append.mp hd with hd | hd
      · exact hmore d hd
      · obtain ⟨e, -, rfl⟩ := List.mem_map.mp hd
        exact isSegmentChar_segmentChar e

def WellFormed (c : Configuration) : Prop :=
  (∀ s ∈ c.moduleRoot, IsSegment s) ∧ IsSegment c.typeModule

theorem standard_wellFormed : standard.WellFormed := ⟨by decide, by decide⟩

private theorem rootSegments_isSegment {root s : String} (h : s ∈ rootSegments root) :
    IsSegment s := by
  obtain ⟨part, -, rfl⟩ := List.mem_map.mp h
  exact segment_isSegment part

theorem ofStated_wellFormed (root typeModule : Option String) :
    (ofStated root typeModule).WellFormed := by
  constructor
  · intro s hs
    unfold ofStated at hs
    dsimp only at hs
    split at hs
    · exact standard_wellFormed.1 s hs
    · exact standard_wellFormed.1 s hs
    · rename_i hroot
      obtain ⟨r, -, rfl⟩ := Option.map_eq_some_iff.mp hroot
      exact rootSegments_isSegment hs
  · unfold ofStated
    dsimp only
    split
    · exact standard_wellFormed.2
    · exact standard_wellFormed.2
    · exact segment_isSegment _

private theorem ofStated_moduleRoot_ne_nil (root typeModule : Option String) :
    (ofStated root typeModule).moduleRoot ≠ [] := by
  unfold ofStated
  dsimp only
  split
  · decide
  · decide
  · rename_i hsegments _
    exact hsegments

private theorem exists_stated_of_ofText {source : String} {c : Configuration}
    (h : ofText source = .ok c) : ∃ root typeModule, c = ofStated root typeModule := by
  unfold ofText at h
  split at h
  · cases h
  · split at h
    · cases h
    · cases h
      exact ⟨_, _, rfl⟩

private theorem exists_stated_of_ofFile {path : String} {result : Except FileFault String}
    {c : Configuration} {told : List LogLine} (h : ofFile path result = .ok (c, told)) :
    ∃ root typeModule, c = ofStated root typeModule := by
  unfold ofFile at h
  split at h
  · cases h
    exact ⟨none, none, rfl⟩
  · cases h
  · split at h
    · rename_i htext
      cases h
      exact exists_stated_of_ofText htext
    · cases h
      exact ⟨none, none, rfl⟩

theorem ofFile_wellFormed {path : String} {result : Except FileFault String} {c : Configuration}
    {told : List LogLine} (h : ofFile path result = .ok (c, told)) : c.WellFormed := by
  obtain ⟨root, typeModule, rfl⟩ := exists_stated_of_ofFile h
  exact ofStated_wellFormed root typeModule

theorem ofFile_moduleRoot_ne_nil {path : String} {result : Except FileFault String}
    {c : Configuration} {told : List LogLine} (h : ofFile path result = .ok (c, told)) :
    c.moduleRoot ≠ [] := by
  obtain ⟨root, typeModule, rfl⟩ := exists_stated_of_ofFile h
  exact ofStated_moduleRoot_ne_nil root typeModule

theorem toList_intercalate_point (segments : List String) :
    (String.intercalate "." segments).toList = Text.joinWith '.' (segments.map String.toList) := by
  have hpoint : ".".toList = ['.'] := rfl
  rw [String.toList_intercalate, hpoint, Text.intercalate_eq_joinWith]

theorem IsSegment.notMem {s : String} (h : IsSegment s) {c : Char}
    (hc : isSegmentChar c = false) : c ∉ s.toList := by
  intro hmem
  rw [List.all_eq_true.mp h.2 c hmem] at hc
  cases hc

end NativeBindings.Configuration
