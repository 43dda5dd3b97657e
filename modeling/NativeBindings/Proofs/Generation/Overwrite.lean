import NativeBindings.Proofs.Generation.Outcome
import NativeBindings.Proofs.HostModule.Order
import NativeBindings.Proofs.HostModule.Written

set_option autoImplicit false
set_option relaxedAutoImplicit false

/-!
What a finished generation does to a tree of files. Main statement: it writes nine files, each at
the path of the module in it, changes no other file, and does the same when it runs again.
-/

namespace NativeBindings

namespace Generation

variable {job : Job} {file : OutputFile}

private theorem hasHeader_typeModule (configuration : Configuration) (table : TypeTable) :
    Written.HasHeader configuration.typeModuleName
      (HostModule.TypeModule.ofTable configuration table).text := by
  rw [HostModule.TypeModule.text_ofTable, Written.typeModule]
  exact ⟨_, by rw [String.append_assoc, String.append_assoc]⟩

private theorem hasHeader_textOf (spec : ModuleSpec) (table : TypeTable) (stanzas : List Stanza) :
    Written.HasHeader spec.name (spec.textOf table stanzas) := by
  obtain ⟨configuration, category, ownership⟩ := spec
  cases ownership with
  | unmanaged =>
    rw [ModuleSpec.textOf_unmanaged, Written.unmanagedPreamble]
    exact ⟨_, by simp only [String.append_assoc]; rfl⟩
  | managed =>
    rw [ModuleSpec.textOf_managed, Written.managedPreamble]
    exact ⟨_, by simp only [String.append_assoc]; rfl⟩

/-- A file lies where the one name in its header says: below the directory of output, with slashes
for points and the extension behind. -/
structure LiesBy (job : Job) (file : OutputFile) (name : String) : Prop where
  blankless : ' ' ∉ name.toList
  header : Written.HasHeader name file.text
  unique : ∀ other, ' ' ∉ other.toList → Written.HasHeader other file.text → other = name
  path : file.path = Path.join job.directory (Configuration.sourcePath name)

private theorem liesBy_of_source {before : List String} {last : String}
    (h : IsSource job file.path before last)
    (hheader : Written.HasHeader (String.intercalate "." (before ++ [last])) file.text) :
    LiesBy job file (String.intercalate "." (before ++ [last])) where
  blankless := h.blank_notMem
  header := hheader
  unique _ hother hother' := hother'.unique hheader hother h.blank_notMem
  path := h.path_eq

section Plan

variable {lowered : Category → Lowered}
  (hconfiguration : job.configuration.WellFormed) (hroot : job.configuration.moduleRoot ≠ [])
  (hlowered : ∀ c, lower c job.table (c.signatures job.declarations) = .ok (lowered c))
include hconfiguration hroot

private theorem exists_liesBy_typeFile : ∃ name, LiesBy job (typeFile job) name := by
  have hname : String.intercalate "."
      (job.configuration.moduleRoot ++ [job.configuration.typeModule]) =
        job.configuration.typeModuleName := rfl
  have htext : (typeFile job).text =
      (HostModule.TypeModule.ofTable job.configuration job.table).text := by
    rw [typeFile]
  refine ⟨_, liesBy_of_source (isSource_typeFile hconfiguration hroot) ?_⟩
  rw [hname, htext]
  exact hasHeader_typeModule job.configuration job.table

private theorem exists_liesBy_moduleFile (c : Category) (o : Ownership) (l : Lowered) :
    ∃ name, LiesBy job (moduleFile job c o l) name := by
  have hname : String.intercalate "." (job.configuration.moduleRoot ++ [o.word] ++ [c.moduleName]) =
      (job.spec c o).name := by
    rw [List.append_assoc]
    rfl
  refine ⟨_, liesBy_of_source (isSource_modulePath hconfiguration hroot c o) ?_⟩
  rw [hname]
  exact hasHeader_textOf (job.spec c o) job.table l.stanzas

include hlowered

private theorem plan_files_source : ∀ file ∈ (plan job).files, (∃ name, LiesBy job file name) ∧
    ∃ before last, IsSource job file.path before last := by
  rw [(plan_of_lowered hlowered).1]
  intro file hfile
  rcases List.mem_cons.mp hfile with rfl | hfile
  · exact ⟨exists_liesBy_typeFile hconfiguration hroot, _, _,
      isSource_typeFile hconfiguration hroot⟩
  · obtain ⟨⟨c, o⟩, -, rfl⟩ := List.mem_map.mp hfile
    exact ⟨exists_liesBy_moduleFile hconfiguration hroot c o _, _, _,
      isSource_modulePath hconfiguration hroot c o⟩

end Plan

/-- A report lists the type module and the two modules of each category, which have as many
functions as each other, and every signature is one of these functions or counted as left out. -/
structure Counted (job : Job) (report : Report) (functions : Category → Nat) : Prop where
  written : report.written = ((typeFile job).path, 0) ::
    (cells Category.all).map fun cell => (modulePath job cell.1 cell.2, functions cell.1)
  signatures : report.skipped + (Category.all.map functions).sum =
    (Category.all.map fun c => (c.signatures job.declarations).length).sum

private theorem counted_of_lowered {lowered : Category → Lowered}
    (hlowered : ∀ c, lower c job.table (c.signatures job.declarations) = .ok (lowered c)) :
    Counted job (plan job).report fun c => (lowered c).stanzas.length where
  written := by
    rw [Plan.report, (plan_of_lowered hlowered).1, List.map_cons, List.map_map]
    rfl
  signatures := sum_lowered hlowered

/-- A generation that finishes under a loaded configuration has written nine files to places of
their own, each where the name of the module in it says, and reports them in order. The texts and
the report do not depend on the tree, no other file has changed, and the same generation run again
changes nothing and reports the same. The two modules of a category have as many functions as each
other, and with those left out these are all signatures. -/
theorem overwrites_repeatably (job : Job) {path : String} {found : Except FileFault String}
    {remarks : List LogLine}
    (hconfiguration : Configuration.ofFile path found = .ok (job.configuration, remarks))
    {t u : FileTree} {told : List LogLine} {report : Report}
    (hrun : (run FileTree.system job).run t = ((told, .ok report), u)) :
    (plan job).files.length = 9 ∧ ((plan job).files.map (·.path)).Nodup ∧
    report.written = (plan job).files.map (fun file => (file.path, file.functions)) ∧
    (∀ file ∈ (plan job).files, ∃ name, LiesBy job file name) ∧
    Overwritten (plan job).files t u ∧
    (∀ t' u' told' report', (run FileTree.system job).run t' = ((told', .ok report'), u') →
      told' = told ∧ report' = report ∧
        ∀ file ∈ (plan job).files, u'.read file.path = u.read file.path) ∧
    (run FileTree.system job).run u = ((told, .ok report), u) ∧
    ∃ functions, Counted job report functions := by
  have hwellFormed := Configuration.ofFile_wellFormed hconfiguration
  have hroot := Configuration.ofFile_moduleRoot_ne_nil hconfiguration
  obtain ⟨hplan, hfree, rfl, rfl, hend⟩ := (run_eq_ok_iff FileTree.system).mp hrun
  obtain ⟨lowered, hlowered⟩ := exists_lowered_of_plan hplan
  have hapart := plan_files_apart hwellFormed hroot hlowered
  have hsources := plan_files_source hwellFormed hroot hlowered
  obtain ⟨hchange, hholds⟩ := changed_of_allCalls hapart hfree hend.symm
  have hoverwritten := overwritten_of_changes hapart hchange hholds
  have hagain : ∀ file ∈ (plan job).files, u.Holds file.path file.text ∧
      u.isDirectory ((Path.parent? file.path).getD "") = true := by
    intro file hfile
    obtain ⟨-, before, last, hsource⟩ := hsources file hfile
    obtain ⟨l, hl, -⟩ := hholds file hfile
    exact ⟨hholds file hfile, hsource.isDirectory_parent hl⟩
  obtain ⟨hfreeAgain, hsame⟩ := allCalls_again hagain
  refine ⟨?_, ?_, rfl, fun file hfile => (hsources file hfile).1, hoverwritten, ?_,
    (run_eq_ok_iff FileTree.system).mpr ⟨hplan, hfreeAgain, rfl, rfl, hsame.symm⟩,
    _, counted_of_lowered hlowered⟩
  · rw [(plan_of_lowered hlowered).1, List.length_cons, List.length_map]
    rfl
  · have hplaces := hoverwritten.places
    rw [← Function.comp_def, ← List.map_map] at hplaces
    exact hplaces.of_map
  · intro t' u' told' report' hrun'
    obtain ⟨-, hfree', rfl, rfl, hend'⟩ := (run_eq_ok_iff FileTree.system).mp hrun'
    refine ⟨rfl, rfl, fun file hfile => ?_⟩
    have hholds' := (changed_of_allCalls hapart hfree' hend'.symm).2
    rw [(hholds' file hfile).read, (hholds file hfile).read]

def negationJob : Job := ⟨"out", .standard, .standard, [ModuleSpec.negated "self"]⟩

theorem plan_negationJob : (plan negationJob).failure = none := by
  apply plan_of_mapped
  intro c _ d hd _
  rw [List.mem_singleton.mp hd]
  decide

theorem overwrites_repeatably_neg :
    Configuration.ofFile "Codegen.toml" (.error .notFound) =
      .ok (negationJob.configuration, []) ∧
    ∃ told report u,
      (run FileTree.system negationJob).run outdatedTree = ((told, .ok report), u) ∧
      report.written.length = 9 ∧ Overwritten (plan negationJob).files outdatedTree u ∧
      (run FileTree.system negationJob).run u = ((told, .ok report), u) ∧
      ∃ functions, Counted negationJob report functions := by
  have hconfiguration : Configuration.ofFile "Codegen.toml" (.error .notFound) =
    .ok (negationJob.configuration, []) := rfl
  have hfree := noneFails_of_roomIn (rfl : negationJob.configuration = _) outdatedTree_roomIn
  have hrun := (run_eq_ok_iff FileTree.system).mpr ⟨plan_negationJob, hfree, rfl, rfl, rfl⟩
  obtain ⟨hnine, -, hwritten, -, hoverwritten, -, hagain, hcounted⟩ :=
    overwrites_repeatably negationJob hconfiguration hrun
  refine ⟨hconfiguration, _, _, _, hrun, ?_, hoverwritten, hagain, hcounted⟩
  rw [hwritten, List.length_map, hnine]

end Generation

end NativeBindings
