import NativeBindings.Proofs.Files.System
import NativeBindings.Proofs.Files.Tree

set_option autoImplicit false
set_option relaxedAutoImplicit false

/-!
What the operations on a tree of files leave as it was. Making directories changes no file, and
writing a file changes the one at its place only.
-/

namespace NativeBindings.FileTree

variable {t u v : FileTree} {l : Location} {places : Location → Prop}

/-- A tree that came from another one by making directories where nothing was, and by changes of
what is no directory at some places. -/
structure ChangedAt (places : Location → Prop) (t u : FileTree) : Prop where
  directory : ∀ l, t.find? l = some .directory → u.find? l = some .directory
  file : ∀ l, ¬ places l → ∀ content,
    u.find? l = some (.file content) ↔ t.find? l = some (.file content)
  settled : ∀ l, ¬ places l → ∀ node, t.Settled l node → u.Settled l node

namespace ChangedAt

theorem refl (places : Location → Prop) (t : FileTree) : ChangedAt places t t :=
  ⟨fun _ h => h, fun _ _ _ => .rfl, fun _ _ _ h => h⟩

theorem trans (h : ChangedAt places t u) (h' : ChangedAt places u v) : ChangedAt places t v where
  directory l hl := h'.directory l (h.directory l hl)
  file l hl content := (h'.file l hl content).trans (h.file l hl content)
  settled l hl node hnode := h'.settled l hl node (h.settled l hl node hnode)

theorem mono {more : Location → Prop} (h : ChangedAt places t u) (hmore : ∀ l, places l → more l) :
    ChangedAt more t u where
  directory := h.directory
  file l hl := h.file l fun hplace => hl (hmore l hplace)
  settled l hl := h.settled l fun hplace => hl (hmore l hplace)

theorem locate {path : String} (h : ChangedAt places t u) (hl : t.locate path = .ok l) :
    u.locate path = .ok l := by
  obtain ⟨hne, hwalk⟩ := locate_eq_ok_iff.mp hl
  exact locate_eq_ok_iff.mpr ⟨hne, walk_of_directories h.directory hwalk⟩

end ChangedAt

private theorem ne_root_of_find? (h : t.find? l ≠ some .directory) : l ≠ [] := by
  rintro rfl
  exact h rfl

/-- A place that is set to a directory where nothing was, or to a file where no directory was. -/
theorem changedAt_set {node : FileNode} (hfree : t.find? l ≠ some .directory)
    (hnode : ∀ content, node = .file content → places l)
    (hdirectory : node = .directory → t.find? l = none) : ChangedAt places t (t.set l node) := by
  have hset := (settled_set t (ne_root_of_find? hfree) node).find?
  have hplace : ¬ places l → node = .directory := by
    intro hl
    cases node with
    | directory => rfl
    | file content => exact absurd (hnode content rfl) hl
  constructor
  · intro k hk
    have hne : k ≠ l := by
      rintro rfl
      exact hfree hk
    rw [find?_set_of_ne hne]
    exact hk
  · intro k hk content
    by_cases hne : k = l
    · subst hne
      have hmade := hplace hk
      rw [hset, hdirectory hmade, hmade]
      simp
    · rw [find?_set_of_ne hne]
  · intro k hk other hother
    have hne : k ≠ l := by
      rintro rfl
      have hfound := hother.find?
      rw [hdirectory (hplace hk)] at hfound
      cases hfound
    exact hother.set_of_ne hne

private theorem changedAt_makeDirectory {path : String} (h : t.makeDirectory path = .ok u) :
    ChangedAt places t u := by
  obtain ⟨l, hnone, rfl⟩ := makeDirectory_eq_ok h
  have hfree : t.find? l ≠ some .directory := by simp [hnone]
  exact changedAt_set hfree (fun _ hfile => by cases hfile) fun _ => hnone

theorem makeDirectory_keepsTo (path : String) :
    KeepsTo (ChangedAt places) (system.makeDirectory path) := by
  intro t
  change ChangedAt places t (update (fun t => t.makeDirectory path) t).2
  unfold update
  split
  · rename_i u hmade
    exact changedAt_makeDirectory hmade
  · exact .refl places t

theorem changedAt_makeDirectories (path : String) (t : FileTree) :
    ChangedAt places t ((system.makeDirectories path).run t).2 :=
  FileSystem.makeDirectories_keepsTo (ChangedAt.refl places) (fun _ _ _ => .trans)
    makeDirectory_keepsTo (fun _ => .refl places) path t

theorem changedAt_write {path : String} {content : ByteArray} (hl : t.locate path = .ok l)
    (hplace : places l) (h : t.write path content = .ok u) : ChangedAt places t u := by
  obtain ⟨k, hk, hfree, rfl⟩ := write_eq_ok_iff.mp h
  have hkl := hl.symm.trans hk
  cases hkl
  exact changedAt_set hfree (fun _ _ => hplace) fun hnode => by cases hnode

/-- A path leads to a file with a text, and nothing else is said of its place. -/
def Holds (t : FileTree) (path text : String) : Prop :=
  ∃ l, t.locate path = .ok l ∧ t.Settled l (.file text.toUTF8)

variable {path text : String}

theorem run_write_of (h : t.write path text.toUTF8 = .ok u) :
    (system.write path text).run t = (.ok (), u) := by
  change update (fun t => t.write path text.toUTF8) t = _
  rw [update, h]

theorem write_of_run (h : (system.write path text).run t = (.ok (), u)) :
    t.write path text.toUTF8 = .ok u := by
  change update (fun t => t.write path text.toUTF8) t = _ at h
  unfold update at h
  split at h
  · rename_i next hnext
    rw [← (Prod.mk.inj h).2]
    exact hnext
  · cases (Prod.mk.inj h).1

theorem run_makeDirectories_of_isDirectory (h : t.isDirectory path = true) :
    (system.makeDirectories path).run t = (.ok (), t) := by
  apply FileSystem.makeDirectories_of_there
  · change update (fun t => t.makeDirectory path) t = _
    rw [update, makeDirectory_of_isDirectory h]
  · change (t.isDirectory path, t) = _
    rw [h]

private theorem fromUTF8?_toUTF8 (text : String) : String.fromUTF8? text.toUTF8 = some text := by
  simp only [String.fromUTF8?, String.toUTF8_eq_toByteArray, dif_pos text.isValidUTF8]
  rfl

theorem read_of_file (hl : t.locate path = .ok l) (hfile : t.find? l = some (.file text.toUTF8)) :
    t.read path = .ok text := by
  have hcontent : t.contentAt path = .ok text.toUTF8 := by
    rw [contentAt, hl]
    dsimp only
    rw [hfile]
  rw [FileTree.read, hcontent]
  dsimp only
  rw [fromUTF8?_toUTF8]

theorem Holds.read (h : t.Holds path text) : t.read path = .ok text := by
  obtain ⟨l, hl, hsettled⟩ := h
  exact read_of_file hl hsettled.find?

theorem Holds.write (h : t.Holds path text) : t.write path text.toUTF8 = .ok t := by
  obtain ⟨l, hl, hsettled⟩ := h
  refine write_eq_ok_iff.mpr ⟨l, hl, ?_, hsettled.set_eq.symm⟩
  rw [hsettled.find?]
  simp

theorem holds_of_write (h : t.write path text.toUTF8 = .ok u) : u.Holds path text := by
  obtain ⟨l, hl, hfree, rfl⟩ := write_eq_ok_iff.mp h
  have hlater : (t.set l (.file text.toUTF8)).locate path = .ok l :=
    (changedAt_write hl trivial h : ChangedAt (fun _ => True) _ _).locate hl
  exact ⟨l, hlater, settled_set t (ne_root_of_find? hfree) _⟩

theorem Holds.of_changedAt (h : t.Holds path text) (hchange : ChangedAt places t u)
    (hplace : ∀ l, u.locate path = .ok l → ¬ places l) : u.Holds path text := by
  obtain ⟨l, hl, hsettled⟩ := h
  have hlater := hchange.locate hl
  exact ⟨l, hlater, hchange.settled l (hplace l hlater) _ hsettled⟩

/-- Parts of a path lead past directories to a place where none is. -/
def hasRoom (t : FileTree) (parts : List (List Char)) : Bool :=
  match t.walk (parts.map String.ofList) [] with
  | .error _ => false
  | .ok l =>
    match t.find? l with
    | some .directory => false
    | _ => true

theorem hasRoom_iff {parts : List (List Char)} :
    t.hasRoom parts = true ↔
      ∃ l, t.walk (parts.map String.ofList) [] = .ok l ∧ t.find? l ≠ some .directory := by
  unfold hasRoom
  cases t.walk (parts.map String.ofList) [] with
  | error f => simp
  | ok l =>
    simp only [Except.ok.injEq, exists_eq_left']
    split <;> simp_all

theorem hasRoom_set {content : ByteArray} {parts : List (List Char)}
    (hfree : t.find? l ≠ some .directory) (h : t.hasRoom parts = true) :
    (t.set l (.file content)).hasRoom parts = true := by
  obtain ⟨k, hk, hkfree⟩ := hasRoom_iff.mp h
  have hchange : ChangedAt (fun _ => True) t (t.set l (.file content)) :=
    changedAt_set hfree (fun _ _ => trivial) fun hnode => by cases hnode
  refine hasRoom_iff.mpr ⟨k, walk_of_directories hchange.directory hk, ?_⟩
  by_cases hkl : k = l
  · rw [hkl, (settled_set t (ne_root_of_find? hfree) _).find?]
    simp
  · rw [find?_set_of_ne hkl]
    exact hkfree

/-- Two paths that never lead to one place of a tree. -/
def Apart (p q : String) : Prop :=
  ∀ (t : FileTree) (l : Location), t.locate p = .ok l → t.locate q ≠ .ok l

theorem apart_of_parts {p q : String} {front names others : List (List Char)}
    (hp : Path.parts p = front ++ names) (hq : Path.parts q = front ++ others)
    (hnames : ∀ name ∈ names, Path.IsName name) (hothers : ∀ name ∈ others, Path.IsName name)
    (hne : names ≠ others) : Apart p q := by
  intro t l hl hl'
  have hpwalk := (locate_eq_ok_iff.mp hl).2
  have hqwalk := (locate_eq_ok_iff.mp hl').2
  rw [hp, List.map_append] at hpwalk
  rw [hq, List.map_append] at hqwalk
  obtain ⟨base, hbase, hpwalk⟩ := walk_append_eq_ok hpwalk
  obtain ⟨base', hbase', hqwalk⟩ := walk_append_eq_ok hqwalk
  cases hbase.symm.trans hbase'
  have hplaces := (walk_names hnames hpwalk).symm.trans (walk_names hothers hqwalk)
  have hsame := List.append_cancel_left hplaces
  exact hne (List.map_injective_iff.mpr (fun _ _ => String.ofList_injective) hsame)

theorem isDirectory_parent {path : String} {before : List (List Char)} {directory name : List Char}
    (hparts : Path.parts path = before ++ [directory, name]) (hdirectory : Path.IsName directory)
    (hname : Path.IsName name) (hl : t.locate path = .ok l) :
    t.isDirectory ((Path.parent? path).getD "") = true := by
  obtain ⟨parent, hparent, hbefore⟩ := Path.parent?_of_parts hparts hdirectory hname
  have hwalk := (locate_eq_ok_iff.mp hl).2
  have hsplit : Path.parts path = Path.parts parent ++ [name] := by simp [hparts, hbefore]
  rw [hsplit, List.map_append] at hwalk
  obtain ⟨m, hm, hlast⟩ := walk_append_eq_ok hwalk
  have hthere := (walk_name hname hlast).1
  have hne : parent ≠ "" := by
    rintro rfl
    have hempty := congrArg List.getLast? hbefore
    rw [List.getLast?_concat] at hempty
    exact hdirectory.1 (Option.some.inj hempty).symm
  rw [hparent]
  exact isDirectory_iff.mpr ⟨m, locate_eq_ok_iff.mpr ⟨hne, hm⟩, hthere⟩

end NativeBindings.FileTree
