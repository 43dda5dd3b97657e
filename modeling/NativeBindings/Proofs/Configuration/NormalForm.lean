import NativeBindings.Proofs.Configuration.Segments
import NativeBindings.Proofs.Configuration.Written

set_option autoImplicit false
set_option relaxedAutoImplicit false

/-!
Loaded configurations are normal forms. Main statement: whatever a configuration file says, its
names are segments, and a file that states these names gives the same configuration again.
-/

namespace NativeBindings.Configuration

/-! Segments are not changed. -/

private theorem isBlank_of_isSegmentChar {c : Char} (h : isSegmentChar c = true) :
    Text.isBlank c = false := by
  rcases Bool.or_eq_true_iff.mp h with halphanum | hunderscore
  · obtain ⟨hlow, hhigh⟩ := Text.toNat_of_isAlphanum halphanum
    simp [Text.isBlank, Text.inRanges, Text.blankRanges]
    omega
  · obtain rfl := beq_iff_eq.mp hunderscore
    decide

variable {s : String}

private theorem IsSegment.segment_eq (h : IsSegment s) : segment s.toList = s := by
  obtain ⟨hfirst, hall⟩ := h
  cases hs : s.toList with
  | nil => simp [hs] at hfirst
  | cons c rest =>
    rw [hs] at hfirst hall
    have hupper : c.isUpper = true := hfirst
    have halpha := Text.isAlpha_of_isUpper hupper
    have hrest : rest.map segmentChar = rest := by
      conv_rhs => rw [← List.map_id rest]
      exact List.map_congr_left fun d hd =>
        if_pos (List.all_eq_true.mp hall d (List.mem_cons_of_mem c hd))
    rw [segment, segmentStart, if_pos halpha, Text.toUpper_of_isUpper hupper, hrest,
      List.singleton_append, ← hs, String.ofList_toList]

private theorem IsSegment.trim_eq (h : IsSegment s) : Text.trim s.toList = s.toList :=
  Text.trim_eq_self fun c hc => isBlank_of_isSegmentChar (List.all_eq_true.mp h.2 c hc)

theorem IsSegment.toList_ne_nil (h : IsSegment s) : s.toList ≠ [] := by
  intro hs
  have hfirst := h.1
  simp [hs] at hfirst

/-! Dotted names. -/

variable {segments : List String}

private theorem split_intercalate (hne : segments ≠ []) (h : ∀ s ∈ segments, '.' ∉ s.toList) :
    Text.split '.' (String.intercalate "." segments).toList = segments.map String.toList := by
  rw [toList_intercalate_point]
  refine Text.split_joinWith (by simpa using hne) fun part hpart => ?_
  obtain ⟨s, hs, rfl⟩ := List.mem_map.mp hpart
  exact h s hs

private theorem rootSegments_intercalate (hne : segments ≠ []) (h : ∀ s ∈ segments, IsSegment s) :
    rootSegments (String.intercalate "." segments) = segments := by
  have hpoint : ∀ s ∈ segments, '.' ∉ s.toList := fun s hs => (h s hs).notMem (by decide)
  have htrim : (segments.map String.toList).map Text.trim = segments.map String.toList := by
    rw [List.map_map]
    exact List.map_congr_left fun s hs => (h s hs).trim_eq
  have hfilter : (segments.map String.toList).filter (fun part => !part.isEmpty) =
      segments.map String.toList := by
    refine List.filter_eq_self.mpr fun part hpart => ?_
    obtain ⟨s, hs, rfl⟩ := List.mem_map.mp hpart
    simp [(h s hs).toList_ne_nil]
  have hsegment : (segments.map String.toList).map segment = segments := by
    conv_rhs => rw [← List.map_id segments]
    rw [List.map_map]
    exact List.map_congr_left fun s hs => (h s hs).segment_eq
  rw [rootSegments, split_intercalate hne hpoint, htrim, hfilter, hsegment]

/-! Configurations. -/

private theorem moduleRoot_ofStated (hne : segments ≠ []) (h : ∀ s ∈ segments, IsSegment s)
    (typeModule : Option String) :
    (ofStated (some (String.intercalate "." segments)) typeModule).moduleRoot = segments := by
  simp only [ofStated, Option.map_some, rootSegments_intercalate hne h]

private theorem typeModule_ofStated (h : IsSegment s) (root : Option String) :
    (ofStated root (some s)).typeModule = s := by
  obtain ⟨c, rest, hs⟩ := List.exists_cons_of_ne_nil h.toList_ne_nil
  have htrim : Text.trim s.toList = c :: rest := h.trim_eq.trans hs
  have hsegment : segment (c :: rest) = s := hs ▸ h.segment_eq
  simp only [ofStated, Option.map_some, htrim]
  exact hsegment

variable {c : Configuration}

private theorem ofStated_names (hroot : c.moduleRoot ≠ []) (h : c.WellFormed) :
    ofStated (some (String.intercalate "." c.moduleRoot)) (some c.typeModule) = c :=
  congrArg₂ mk (moduleRoot_ofStated hroot h.1 (some c.typeModule))
    (typeModule_ofStated h.2 (some (String.intercalate "." c.moduleRoot)))

theorem split_moduleName (hroot : c.moduleRoot ≠ []) (h : c.WellFormed) {parts : List String}
    (hparts : ∀ part ∈ parts, '.' ∉ part.toList) :
    (Text.split '.' (c.moduleName parts).toList).map String.ofList = c.moduleRoot ++ parts := by
  have hpoint : ∀ s ∈ c.moduleRoot ++ parts, '.' ∉ s.toList := by
    intro s hs
    rcases List.mem_append.mp hs with hs | hs
    · exact (h.1 s hs).notMem (by decide)
    · exact hparts s hs
  rw [moduleName, split_intercalate (List.append_ne_nil_of_left_ne_nil hroot parts) hpoint,
    List.map_map]
  simp [Function.comp_def]

private theorem ofFile_of_states {path source : String} (hroot : c.moduleRoot ≠ [])
    (h : c.WellFormed)
    (hstates : States source (String.intercalate "." c.moduleRoot) c.typeModule) :
    ofFile path (.ok source) = .ok (c, []) := by
  obtain ⟨node, hdocument, hstated⟩ := hstates
  have htext : ofText source = .ok c := by
    simp only [ofText, hdocument, hstated, ofStated_names hroot h]
  simp only [ofFile, htext]

theorem exists_ofFile (path source : String) :
    ∃ c told, ofFile path (.ok source) = .ok (c, told) := by
  simp only [ofFile]
  cases ofText source <;> exact ⟨_, _, rfl⟩

/-- Every text gives a configuration whose names are segments, so that its module names are split at
their dots again. Whatever text states these names gives the same configuration; each text in which
they are written in a table does so, and there is such a text. -/
theorem loaded_normal_form (path source : String) :
    ∃ c told, ofFile path (.ok source) = .ok (c, told) ∧
      c.moduleRoot ≠ [] ∧ c.WellFormed ∧
      (∀ parts : List String, (∀ part ∈ parts, '.' ∉ part.toList) →
        (Text.split '.' (c.moduleName parts).toList).map String.ofList = c.moduleRoot ++ parts) ∧
      (∀ path' text : String,
        States text (String.intercalate "." c.moduleRoot) c.typeModule →
          ofFile path' (.ok text) = .ok (c, [])) ∧
      (∀ text : String,
        StatementWritten (String.intercalate "." c.moduleRoot) c.typeModule text.toList →
          States text (String.intercalate "." c.moduleRoot) c.typeModule) ∧
      ∃ text : String,
        StatementWritten (String.intercalate "." c.moduleRoot) c.typeModule text.toList := by
  obtain ⟨c, told, hloaded⟩ := exists_ofFile path source
  have hroot := ofFile_moduleRoot_ne_nil hloaded
  have hnames := ofFile_wellFormed hloaded
  exact ⟨c, told, hloaded, hroot, hnames, fun _ => split_moduleName hroot hnames,
    fun _ _ => ofFile_of_states hroot hnames, fun _ => states_of_written,
    exists_statementWritten _ _⟩

def untidySource : String :=
  "[module]\nroot = \" torch . 9lives..a-é\"\ntype_module = '  '\n"

def tidySource : String :=
  "# names\nmodule.root = \"Torch.M9lives.A__\" # as they are\nmodule.type_module = \"Type\"\n"

theorem loaded_normal_form_untidy :
    States tidySource "Torch.M9lives.A__" "Type" ∧
      ofFile "a" (.ok untidySource) = .ok (⟨["Torch", "M9lives", "A__"], "Type"⟩, []) ∧
      ofFile "b" (.ok tidySource) = .ok (⟨["Torch", "M9lives", "A__"], "Type"⟩, []) := by
  have huntidy : ofFile "a" (.ok untidySource) =
      .ok (⟨["Torch", "M9lives", "A__"], "Type"⟩, []) := by decide +kernel
  have hdecoded : (Toml.document tidySource.toList >>= stated).toOption =
      some ⟨some "Torch.M9lives.A__", some "Type"⟩ := by decide +kernel
  have hstates : States tidySource "Torch.M9lives.A__" "Type" :=
    Traversal.bind_eq_ok_iff.mp (Traversal.toOption_eq_some_iff.mp hdecoded)
  obtain ⟨c, told, hloaded, -, -, -, hagain, -⟩ := loaded_normal_form "a" untidySource
  obtain ⟨rfl, rfl⟩ := Prod.mk.inj (Except.ok.inj (huntidy.symm.trans hloaded))
  exact ⟨hstates, huntidy, hagain "b" tidySource hstates⟩

end NativeBindings.Configuration
