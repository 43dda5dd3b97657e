import NativeBindings.Configuration.Load
import NativeBindings.Proofs.Files.Tree

set_option autoImplicit false
set_option relaxedAutoImplicit false

/-!
The configuration file beside a specification. Main statement: where the path of the specification
leads somewhere, that of the configuration file leads into a directory, so that nothing but the file
itself can be missing.
-/

namespace NativeBindings

namespace Configuration

open FileTree (walk locate_eq_ok_iff walk_append walk_append_eq_ok walk_idle directory_of_walk_cons
  exists_locate_of_read ne_notDirectory_of_locate)

variable {t : FileTree} {l : Location} {specification : String}

private theorem locate_pathIn (directory : String) {k : Location}
    (hwalk : t.walk ((Path.front directory).map String.ofList) [] = .ok k)
    (hdirectory : t.find? k = some .directory) :
    t.locate (pathIn directory) = .ok (k ++ [fileName]) := by
  have hparts : Path.parts (pathIn directory) = Path.front directory ++ [fileName.toList] :=
    Path.parts_join_name (by decide) (by decide) directory
  have hne : pathIn directory ≠ "" := by
    intro hempty
    rw [hempty] at hparts
    have hlast := congrArg List.getLast? hparts
    rw [List.getLast?_concat] at hlast
    exact absurd hlast (by decide)
  refine locate_eq_ok_iff.mpr ⟨hne, ?_⟩
  rw [hparts, List.map_append, walk_append, hwalk]
  simp [Except.bind, walk, hdirectory, fileName]

/-- Where the path of a specification leads somewhere, the path of the configuration file leads into
a directory. -/
theorem exists_locate_pathBeside (h : t.locate specification = .ok l) :
    ∃ k, t.locate (pathBeside specification) = .ok k := by
  unfold pathBeside Path.parent?
  cases hsignificant : Path.significant specification with
  | nil => exact ⟨_, locate_pathIn "." rfl rfl⟩
  | cons part rest =>
    obtain ⟨idle, behind, hparts, hidle⟩ := Path.exists_parts_eq_front hsignificant
    have hwalk := (locate_eq_ok_iff.mp h).2
    rw [hparts, List.map_append, List.map_append] at hwalk
    obtain ⟨base, hbase, hbehind⟩ := walk_append_eq_ok hwalk
    obtain ⟨same, hsame, hlast⟩ := walk_append_eq_ok hbehind
    have hstay : same = base := by
      refine walk_idle ?_ hsame
      intro q hq
      obtain ⟨cs, hcs, rfl⟩ := List.mem_map.mp hq
      rcases hidle cs hcs with rfl | rfl
      · exact .inl rfl
      · exact .inr rfl
    rw [hstay] at hlast
    exact ⟨_, locate_pathIn _ hbase (directory_of_walk_cons hlast)⟩

theorem read_pathBeside_ne_notDirectory {text : String} (h : t.read specification = .ok text) :
    t.read (pathBeside specification) ≠ .error .notDirectory := by
  obtain ⟨l, hl⟩ := exists_locate_of_read h
  obtain ⟨k, hk⟩ := exists_locate_pathBeside hl
  exact ne_notDirectory_of_locate hk

end Configuration

end NativeBindings
