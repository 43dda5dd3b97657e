import NativeBindings.Proofs.Files.Frame
import NativeBindings.Proofs.Generation.Completion
import NativeBindings.Proofs.Generation.Paths
import NativeBindings.Proofs.Text.Nesting

set_option autoImplicit false
set_option relaxedAutoImplicit false

/-!
Files of a generation in a tree. They never lie at one place, so each has its text after the calls
that put all of them to their places, and no file elsewhere has changed.
-/

namespace NativeBindings

namespace Generation

open FileTree (Apart ChangedAt)
open OutputFile (allCalls)

variable {job : Job} {t u : FileTree} {file : OutputFile} {files : List OutputFile}

private theorem changed_of_calls (h : FileTree.system.NoneFails file.calls t) :
    ∃ l, (FileTree.system.after file.calls t).locate file.path = .ok l ∧
      ChangedAt (· = l) t (FileTree.system.after file.calls t) ∧
      (FileTree.system.after file.calls t).Holds file.path file.text := by
  obtain ⟨mid, hmade, hrun⟩ := exists_of_noneFails h
  have hwritten := FileTree.write_of_run hrun
  have hholds := FileTree.holds_of_write hwritten
  obtain ⟨l, hl, -⟩ := FileTree.write_eq_ok_iff.mp hwritten
  have hdirectories : ChangedAt (· = l) t mid := by
    have hmid : ChangedAt (· = l) t _ :=
      FileTree.changedAt_makeDirectories ((Path.parent? file.path).getD "") t
    rwa [hmade] at hmid
  have hfile : ChangedAt (· = l) mid _ := FileTree.changedAt_write hl rfl hwritten
  exact ⟨l, hfile.locate hl, hdirectories.trans hfile, hholds⟩

def PlaceOf (u : FileTree) (files : List OutputFile) (l : Location) : Prop :=
  ∃ file ∈ files, u.locate file.path = .ok l

/-- Files that never lie at one place are all there after their calls, and no file elsewhere has
changed. -/
theorem changed_of_allCalls (hfiles : files.Pairwise fun f g => Apart f.path g.path)
    (h : FileTree.system.NoneFails (allCalls files) t)
    (hend : FileTree.system.after (allCalls files) t = u) :
    ChangedAt (PlaceOf u files) t u ∧ ∀ file ∈ files, u.Holds file.path file.text := by
  induction files generalizing t with
  | nil =>
    subst hend
    exact ⟨.refl _ t, by simp⟩
  | cons file rest ih =>
    rw [allCalls, List.flatMap_cons, FileSystem.noneFails_append] at h
    rw [allCalls, List.flatMap_cons, FileSystem.after_append] at hend
    obtain ⟨hapart, hothers⟩ := List.pairwise_cons.mp hfiles
    obtain ⟨l, hl, hchange, hholds⟩ := changed_of_calls h.1
    obtain ⟨hlater, hlaterHolds⟩ := ih hothers h.2 hend
    have hplace := hlater.locate hl
    have hhead : ∀ k, k = l → PlaceOf u (file :: rest) k := by
      rintro k rfl
      exact ⟨file, List.mem_cons_self, hplace⟩
    have hmore : ∀ k, PlaceOf u rest k → PlaceOf u (file :: rest) k := by
      rintro k ⟨g, hg, hk⟩
      exact ⟨g, List.mem_cons_of_mem _ hg, hk⟩
    refine ⟨(hchange.mono hhead).trans (hlater.mono hmore), ?_⟩
    intro g hg
    rcases List.mem_cons.mp hg with rfl | hg
    · -- No later file lies at the place of this one.
      apply hholds.of_changedAt hlater
      rintro k hk ⟨other, hother, hsame⟩
      exact hapart other hother u k hk hsame
    · exact hlaterHolds g hg

private theorem calls_again (hholds : t.Holds file.path file.text)
    (hdirectory : t.isDirectory ((Path.parent? file.path).getD "") = true) :
    FileTree.system.NoneFails file.calls t ∧ FileTree.system.after file.calls t = t :=
  noneFails_of (FileTree.run_makeDirectories_of_isDirectory hdirectory)
    (FileTree.run_write_of hholds.write)

theorem allCalls_again (h : ∀ file ∈ files, t.Holds file.path file.text ∧
      t.isDirectory ((Path.parent? file.path).getD "") = true) :
    FileTree.system.NoneFails (allCalls files) t ∧
      FileTree.system.after (allCalls files) t = t := by
  induction files with
  | nil => exact ⟨trivial, rfl⟩
  | cons file rest ih =>
    obtain ⟨hholds, hdirectory⟩ := h file List.mem_cons_self
    obtain ⟨hrest, hsame⟩ := ih fun g hg => h g (List.mem_cons_of_mem _ hg)
    obtain ⟨hfile, hfileSame⟩ := calls_again hholds hdirectory
    rw [allCalls, List.flatMap_cons, FileSystem.noneFails_append, FileSystem.after_append,
      hfileSame]
    exact ⟨⟨hfile, hrest⟩, hsame⟩

section Sources

variable {path path' last last' : String} {before before' : List String}

theorem IsSource.apart (h : IsSource job path before last) (h' : IsSource job path' before' last')
    (hne : Configuration.sourceParts before last ≠ Configuration.sourceParts before' last') :
    Apart path path' :=
  FileTree.apart_of_parts h.parts h'.parts
    (fun _ => Configuration.isName_of_mem_sourceParts h.isSegment_before h.isSegment_last)
    (fun _ => Configuration.isName_of_mem_sourceParts h'.isSegment_before h'.isSegment_last) hne

theorem IsSource.isDirectory_parent {l : Location} (h : IsSource job path before last)
    (hl : t.locate path = .ok l) : t.isDirectory ((Path.parent? path).getD "") = true := by
  obtain ⟨front, directory, hparts, hdirectory⟩ := h.exists_names
  exact FileTree.isDirectory_parent hparts hdirectory h.isSegment_last.isName_file hl

theorem IsSource.blank_notMem (h : IsSource job path before last) :
    ' ' ∉ (String.intercalate "." (before ++ [last])).toList := by
  rw [Configuration.toList_intercalate_point]
  intro hblank
  rcases Text.mem_joinWith hblank with hblank | ⟨part, hpart, hblank⟩
  · exact absurd hblank (by decide)
  · obtain ⟨s, hs, rfl⟩ := List.mem_map.mp hpart
    have hsegment : Configuration.IsSegment s := by
      rcases List.mem_append.mp hs with hs | hs
      · exact h.isSegment_before s hs
      · rw [List.mem_singleton.mp hs]
        exact h.isSegment_last
    exact hsegment.notMem (by decide) hblank

end Sources

private theorem sourceParts_typeFile_ne (job : Job) (c : Category) (o : Ownership) :
    Configuration.sourceParts job.configuration.moduleRoot job.configuration.typeModule ≠
      Configuration.sourceParts (job.configuration.moduleRoot ++ [o.word]) c.moduleName := by
  intro heq
  have hlength := congrArg List.length heq
  simp [Configuration.sourceParts] at hlength

private theorem sourceParts_module_inj {root : List String} {c d : Category} {o p : Ownership}
    (h : Configuration.sourceParts (root ++ [o.word]) c.moduleName =
      Configuration.sourceParts (root ++ [p.word]) d.moduleName) : (c, o) = (d, p) := by
  simp only [Configuration.sourceParts, List.map_append, List.append_assoc,
    List.append_cancel_left_eq] at h
  cases c <;> cases d <;> cases o <;> cases p <;>
    first | rfl | exact absurd h (by decide)

section Cells

variable (hconfiguration : job.configuration.WellFormed)
  (hroot : job.configuration.moduleRoot ≠ [])
include hconfiguration hroot

theorem apart_of_cells {cells : List (Category × Ownership)} (hcells : cells.Nodup)
    (h : List.Forall₂ (fun cell file => file.path = modulePath job cell.1 cell.2) cells files) :
    (typeFile job :: files).Pairwise fun f g => Apart f.path g.path := by
  have htypes := isSource_typeFile hconfiguration hroot
  have hmodules := isSource_modulePath hconfiguration hroot
  rw [List.pairwise_cons]
  constructor
  · intro file hfile
    obtain ⟨⟨c, o⟩, -, hpath⟩ := Traversal.exists_of_forall₂_of_mem h.flip hfile
    rw [hpath]
    exact htypes.apart (hmodules c o) (sourceParts_typeFile_ne job c o)
  · induction h with
    | nil => exact .nil
    | @cons cell file cells files hpath h ih =>
      obtain ⟨hnew, hrest⟩ := List.nodup_cons.mp hcells
      refine .cons ?_ (ih hrest)
      intro other hother
      obtain ⟨cell', hcell', hpath'⟩ := Traversal.exists_of_forall₂_of_mem h.flip hother
      rw [hpath, hpath']
      refine (hmodules cell.1 cell.2).apart (hmodules cell'.1 cell'.2) fun heq => hnew ?_
      have hsame : cell = cell' := sourceParts_module_inj heq
      rwa [hsame]

theorem plan_files_apart {lowered : Category → Lowered}
    (hlowered : ∀ c, lower c job.table (c.signatures job.declarations) = .ok (lowered c)) :
    (plan job).files.Pairwise fun f g => Apart f.path g.path := by
  have hcells : (cells Category.all).Nodup := by decide
  rw [(plan_of_lowered hlowered).1]
  refine apart_of_cells hconfiguration hroot hcells ?_
  rw [List.forall₂_map_right_iff, List.forall₂_same]
  exact fun _ _ => rfl

end Cells

/-- Files lie in a tree at places of their own, each with its text, and every other file is as it
was in the tree before. -/
structure Overwritten (files : List OutputFile) (t u : FileTree) : Prop where
  places : (files.map fun file => u.locate file.path).Nodup
  contents : ∀ file ∈ files, u.read file.path = .ok file.text
  others : ∀ l, ¬ PlaceOf u files l → ∀ content,
    u.find? l = some (.file content) ↔ t.find? l = some (.file content)

theorem overwritten_of_changes (hfiles : files.Pairwise fun f g => Apart f.path g.path)
    (hchange : ChangedAt (PlaceOf u files) t u)
    (hholds : ∀ file ∈ files, u.Holds file.path file.text) : Overwritten files t u where
  places := by
    rw [List.Nodup, List.pairwise_map]
    refine hfiles.imp_of_mem fun {f g} hf _ hapart hsame => ?_
    obtain ⟨l, hl, -⟩ := hholds f hf
    exact hapart u l hl (hsame ▸ hl)
  contents file hfile := (hholds file hfile).read
  others l hl content := hchange.file l hl content

/-- Where the parts of all paths lead past directories to what is none, no call for the files fails.
-/
theorem noneFails_of_hasRoom (h : ∀ file ∈ files, t.hasRoom (Path.parts file.path) = true ∧
      ∃ before last, IsSource job file.path before last) :
    FileTree.system.NoneFails (allCalls files) t := by
  induction files generalizing t with
  | nil => trivial
  | cons file rest ih =>
    obtain ⟨hroom, before, last, hsource⟩ := h file List.mem_cons_self
    obtain ⟨l, hwalk, hfree⟩ := FileTree.hasRoom_iff.mp hroom
    have hl := FileTree.locate_eq_ok_iff.mpr ⟨hsource.ne_empty, hwalk⟩
    have hwrite : t.write file.path file.text.toUTF8 = .ok (t.set l (.file file.text.toUTF8)) :=
      FileTree.write_eq_ok_iff.mpr ⟨l, hl, hfree, rfl⟩
    obtain ⟨hfile, hafter⟩ := noneFails_of
      (FileTree.run_makeDirectories_of_isDirectory (hsource.isDirectory_parent hl))
      (FileTree.run_write_of hwrite)
    rw [allCalls, List.flatMap_cons, FileSystem.noneFails_append, hafter]
    refine ⟨hfile, ih fun g hg => ?_⟩
    obtain ⟨hgroom, hgsource⟩ := h g (List.mem_cons_of_mem _ hg)
    exact ⟨FileTree.hasRoom_set hfree hgroom, hgsource⟩

/-- A tree leaves room for every module below the standard root in a directory. -/
def RoomIn (directory : String) (t : FileTree) : Prop :=
  t.hasRoom (Path.front directory ++ Configuration.sourceParts ["Torch", "Internal"] "Type") =
      true ∧
    ∀ cell ∈ cells Category.all, t.hasRoom (Path.front directory ++
      Configuration.sourceParts ["Torch", "Internal", cell.2.word] cell.1.moduleName) = true

theorem noneFails_of_roomIn (hstandard : job.configuration = .standard)
    (hroom : RoomIn job.directory t) :
    FileTree.system.NoneFails (allCalls (plan job).files) t := by
  have hwellFormed : job.configuration.WellFormed := hstandard ▸ Configuration.standard_wellFormed
  have hroot : job.configuration.moduleRoot ≠ [] := by
    rw [hstandard]
    decide
  have htypes := isSource_typeFile hwellFormed hroot
  have hmodules := isSource_modulePath hwellFormed hroot
  apply noneFails_of_hasRoom
  intro file hfile
  rcases path_of_mem_plan hfile with hpath | ⟨c, o, hpath⟩
  · rw [hpath, htypes.parts]
    refine ⟨?_, _, _, htypes⟩
    rw [hstandard]
    exact hroom.1
  · have hcell : (c, o) ∈ cells Category.all := by cases c <;> cases o <;> decide
    rw [hpath, (hmodules c o).parts]
    refine ⟨?_, _, _, hmodules c o⟩
    rw [hstandard]
    exact hroom.2 (c, o) hcell

/-- The directories of a generation, with an outdated module and a file of someone else. -/
def outdatedTree : FileTree where
  nodes :=
    [(["out"], .directory), (["out", "notes"], .file "keep".toUTF8), (["out", "Torch"], .directory),
      (["out", "Torch", "Internal"], .directory),
      (["out", "Torch", "Internal", "Type.hs"], .file "module Type where".toUTF8),
      (["out", "Torch", "Internal", "Unmanaged"], .directory),
      (["out", "Torch", "Internal", "Managed"], .directory)]

theorem outdatedTree_roomIn : RoomIn "out" outdatedTree := by
  unfold RoomIn
  decide +kernel

end Generation

end NativeBindings
