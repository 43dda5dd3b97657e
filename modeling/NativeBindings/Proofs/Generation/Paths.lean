import NativeBindings.Generation
import NativeBindings.Proofs.Configuration.Segments
import NativeBindings.Proofs.Files.Path

set_option autoImplicit false
set_option relaxedAutoImplicit false

/-!
The paths of the files of a generation. Under a well-formed configuration no two of them are the
same, and each is the name of its module with slashes for points.
-/

namespace NativeBindings

namespace Generation

variable {job : Job}

private theorem typeFile_path (h : job.configuration.WellFormed) :
    (typeFile job).path = Path.lead job.root ++ (job.configuration.typeModule ++ ".hs") := by
  refine Path.join_of_relative ?_ _
  obtain ⟨hfirst, -⟩ := h.2
  cases hname : job.configuration.typeModule.toList with
  | nil => simp [hname] at hfirst
  | cons c rest =>
    have hc : c ≠ '/' := by
      rintro rfl
      simp [hname] at hfirst
    simp [Path.isAbsolute, hname, hc]

private theorem modulePath_eq (job : Job) (c : Category) (o : Ownership) :
    modulePath job c o = Path.lead job.root ++ (o.word ++ "/" ++ (c.moduleName ++ ".hs")) := by
  have hfile : Path.isAbsolute (c.moduleName ++ ".hs") = false := by cases c <;> decide
  have hword : Path.isAbsolute o.word = false := by cases o <;> decide
  have hlead : Path.lead (Path.lead job.root ++ o.word) = Path.lead job.root ++ o.word ++ "/" := by
    cases o <;> simp [Path.lead, Ownership.word]
  rw [modulePath, Path.join_of_relative hfile, Path.join_of_relative hword, hlead]
  simp only [String.append_assoc]

theorem typeFile_path_ne_modulePath (h : job.configuration.WellFormed) (c : Category)
    (o : Ownership) : (typeFile job).path ≠ modulePath job c o := by
  rw [typeFile_path h, modulePath_eq]
  intro heq
  have htail := congrArg String.toList heq
  simp only [String.toList_append, List.append_cancel_left_eq] at htail
  have hslash : '/' ∈ job.configuration.typeModule.toList ++ ".hs".toList := by
    rw [htail]
    simp
  rcases List.mem_append.mp hslash with hslash | hslash
  · exact h.2.notMem (by decide) hslash
  · exact absurd hslash (by decide)

theorem modulePath_inj {c d : Category} {o p : Ownership}
    (h : modulePath job c o = modulePath job d p) : c = d ∧ o = p := by
  rw [modulePath_eq, modulePath_eq] at h
  have htail := congrArg String.toList h
  simp only [String.toList_append, List.append_cancel_left_eq] at htail
  cases c <;> cases d <;> cases o <;> cases p <;>
    first | exact ⟨rfl, rfl⟩ | exact absurd htail (by decide)

end Generation

namespace Configuration

variable {s last : String} {before : List String}

private theorem IsSegment.exists_upper (h : IsSegment s) :
    ∃ c rest, s.toList = c :: rest ∧ c.isUpper = true := by
  obtain ⟨hfirst, -⟩ := h
  cases hs : s.toList with
  | nil => simp [hs] at hfirst
  | cons c rest => exact ⟨c, rest, rfl, by simpa [hs] using hfirst⟩

private theorem isName_of_upper {c : Char} (h : c.isUpper = true) (rest : List Char) :
    Path.IsName (c :: rest) := by
  have hpoint : c ≠ '.' := by
    rintro rfl
    revert h
    decide
  exact ⟨List.cons_ne_nil _ _, fun heq => hpoint (List.cons.inj heq).1,
    fun heq => hpoint (List.cons.inj heq).1⟩

theorem IsSegment.isName (h : IsSegment s) : Path.IsName s.toList := by
  obtain ⟨c, rest, hs, hc⟩ := h.exists_upper
  rw [hs]
  exact isName_of_upper hc rest

theorem IsSegment.isName_file (h : IsSegment s) : Path.IsName (s ++ ".hs").toList := by
  obtain ⟨c, rest, hs, hc⟩ := h.exists_upper
  rw [String.toList_append, hs]
  exact isName_of_upper hc _

private theorem IsSegment.slash_notMem (h : IsSegment s) : '/' ∉ s.toList := h.notMem (by decide)

def sourceParts (before : List String) (last : String) : List (List Char) :=
  before.map String.toList ++ [(last ++ ".hs").toList]

theorem isName_of_mem_sourceParts (hbefore : ∀ s ∈ before, IsSegment s) (hlast : IsSegment last)
    {part : List Char} (h : part ∈ sourceParts before last) : Path.IsName part := by
  rcases List.mem_append.mp h with h | h
  · obtain ⟨s, hs, rfl⟩ := List.mem_map.mp h
    exact (hbefore s hs).isName
  · rw [List.mem_singleton.mp h]
    exact hlast.isName_file

private theorem slash_notMem_of_mem_sourceParts (hbefore : ∀ s ∈ before, IsSegment s)
    (hlast : IsSegment last) {part : List Char} (h : part ∈ sourceParts before last) :
    '/' ∉ part := by
  rcases List.mem_append.mp h with h | h
  · obtain ⟨s, hs, rfl⟩ := List.mem_map.mp h
    exact (hbefore s hs).slash_notMem
  · rw [List.mem_singleton.mp h, String.toList_append, List.mem_append, not_or]
    exact ⟨hlast.slash_notMem, by decide⟩

/-- The path of a module by its name: directories for the segments before the last one. -/
def sourcePath (name : String) : String :=
  String.ofList (name.toList.map fun c => if c = '.' then '/' else c) ++ ".hs"

private theorem IsSegment.map_slash (h : IsSegment s) :
    (s.toList.map fun c => if c = '.' then '/' else c) = s.toList := by
  have hsame : ∀ c ∈ s.toList, (if c = '.' then '/' else c) = c := by
    intro c hc
    have hpoint : c ≠ '.' := by
      rintro rfl
      exact h.notMem (by decide) hc
    exact if_neg hpoint
  rw [List.map_congr_left hsame, List.map_id']

private theorem toList_sourcePath (hbefore : ∀ s ∈ before, IsSegment s) (hlast : IsSegment last) :
    (sourcePath (String.intercalate "." (before ++ [last]))).toList =
      Text.joinWith '/' (sourceParts before last) := by
  have hsegments : ∀ part ∈ (before ++ [last]).map String.toList,
      (part.map fun c => if c = '.' then '/' else c) = part := by
    intro part hpart
    obtain ⟨s, hs, rfl⟩ := List.mem_map.mp hpart
    rcases List.mem_append.mp hs with hs | hs
    · exact (hbefore s hs).map_slash
    · rw [List.mem_singleton.mp hs]
      exact hlast.map_slash
  rw [sourcePath, String.toList_append, String.toList_ofList, toList_intercalate_point,
    Text.map_joinWith hsegments, if_pos rfl, List.map_append, List.map_singleton,
    Text.joinWith_concat_append, sourceParts, String.toList_append]

private theorem parts_sourcePath (hbefore : ∀ s ∈ before, IsSegment s) (hlast : IsSegment last) :
    Path.parts (sourcePath (String.intercalate "." (before ++ [last]))) =
      sourceParts before last := by
  rw [Path.parts, toList_sourcePath hbefore hlast]
  exact Text.split_joinWith (by simp [sourceParts]) fun part hpart =>
    slash_notMem_of_mem_sourceParts hbefore hlast hpart

end Configuration

namespace Generation

variable {job : Job}

private theorem front_root (h : job.configuration.WellFormed)
    (hroot : job.configuration.moduleRoot ≠ []) :
    Path.front job.root =
      Path.front job.directory ++ job.configuration.moduleRoot.map String.toList := by
  have hnames : ∀ s ∈ job.configuration.moduleRoot, '/' ∉ s.toList ∧ s.toList ≠ [] :=
    fun s hs => ⟨(h.1 s hs).slash_notMem, (h.1 s hs).isName.1⟩
  have hparts : Path.parts job.configuration.rootDirectory =
      job.configuration.moduleRoot.map String.toList :=
    Path.parts_foldl_join hroot hnames
  obtain ⟨first, rest, hfirst⟩ := List.exists_cons_of_ne_nil hroot
  obtain ⟨before, last, hlast⟩ := (List.eq_nil_or_concat' job.configuration.moduleRoot).resolve_left
    hroot
  have hrelative : Path.isAbsolute job.configuration.rootDirectory = false := by
    rw [hfirst, List.map_cons] at hparts
    exact Path.isAbsolute_of_parts hparts (hnames first (by simp [hfirst])).2
  have hwhole := Path.parts_join hrelative job.directory
  have hends := hwhole
  rw [hparts, hlast, List.map_append, List.map_singleton, ← List.append_assoc] at hends
  rw [Job.root, Path.front_of_parts hends (hnames last (by simp [hlast])).2, hwhole, hparts]

/-- A path is that of the module whose name has the given segments. -/
structure IsSource (job : Job) (path : String) (before : List String) (last : String) : Prop where
  nested : before ≠ []
  isSegment_before : ∀ s ∈ before, Configuration.IsSegment s
  isSegment_last : Configuration.IsSegment last
  parts : Path.parts path = Path.front job.directory ++ Configuration.sourceParts before last

namespace IsSource

variable {path : String} {before : List String} {last : String}

theorem path_eq (h : IsSource job path before last) :
    path = Path.join job.directory
      (Configuration.sourcePath (String.intercalate "." (before ++ [last]))) := by
  have hsource := Configuration.parts_sourcePath h.isSegment_before h.isSegment_last
  obtain ⟨first, rest, rfl⟩ := List.exists_cons_of_ne_nil h.nested
  have hfirst := (h.isSegment_before first List.mem_cons_self).isName.1
  have hrelative := Path.isAbsolute_of_parts hsource hfirst
  apply Path.parts_inj
  rw [h.parts, Path.parts_join hrelative, hsource]

theorem ne_empty (h : IsSource job path before last) : path ≠ "" := by
  rintro rfl
  have hlength := congrArg List.length h.parts
  have hbefore := List.length_pos_iff.mpr h.nested
  have hempty : (Path.parts "").length = 1 := rfl
  rw [hempty, List.length_append, Configuration.sourceParts, List.length_append, List.length_map,
    List.length_singleton] at hlength
  omega

theorem exists_names (h : IsSource job path before last) :
    ∃ front directory, Path.parts path = front ++ [directory, (last ++ ".hs").toList] ∧
      Path.IsName directory := by
  obtain ⟨inner, directory, rfl⟩ := (List.eq_nil_or_concat' before).resolve_left h.nested
  refine ⟨Path.front job.directory ++ inner.map String.toList, directory.toList, ?_,
    (h.isSegment_before directory (by simp)).isName⟩
  rw [h.parts, Configuration.sourceParts]
  simp

end IsSource

theorem isSource_typeFile (h : job.configuration.WellFormed)
    (hroot : job.configuration.moduleRoot ≠ []) :
    IsSource job (typeFile job).path job.configuration.moduleRoot job.configuration.typeModule where
  nested := hroot
  isSegment_before := h.1
  isSegment_last := h.2
  parts := by
    have hfile : '/' ∉ (job.configuration.typeModule ++ ".hs").toList := by
      rw [String.toList_append, List.mem_append, not_or]
      exact ⟨h.2.slash_notMem, by decide⟩
    rw [typeFile, Path.parts_join_name hfile h.2.isName_file.1, front_root h hroot,
      List.append_assoc]
    rfl

theorem isSource_modulePath (h : job.configuration.WellFormed)
    (hroot : job.configuration.moduleRoot ≠ []) (c : Category) (o : Ownership) :
    IsSource job (modulePath job c o) (job.configuration.moduleRoot ++ [o.word]) c.moduleName where
  nested := by simp
  isSegment_before := by
    intro s hs
    rcases List.mem_append.mp hs with hs | hs
    · exact h.1 s hs
    · rw [List.mem_singleton.mp hs]
      cases o <;> decide
  isSegment_last := by cases c <;> decide
  parts := by
    have hfile : '/' ∉ (c.moduleName ++ ".hs").toList := by cases c <;> decide
    have hfileName : (c.moduleName ++ ".hs").toList ≠ [] := by cases c <;> decide
    have hword : '/' ∉ o.word.toList := by cases o <;> decide
    have hwordName : o.word.toList ≠ [] := by cases o <;> decide
    rw [modulePath, Path.parts_join_name hfile hfileName, Path.front_join_name hword hwordName,
      front_root h hroot, Configuration.sourceParts]
    simp

end Generation

end NativeBindings
