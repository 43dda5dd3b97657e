import Mathlib.Data.List.TakeWhile
import NativeBindings.Files.Tree
import NativeBindings.Proofs.Files.Path

set_option autoImplicit false
set_option relaxedAutoImplicit false

/-!
What the operations on a tree of files leave as it was. Directories stay directories, so a path
leads to the same place as before, and a file written there is found again under the path.
-/

namespace NativeBindings.FileTree

variable {t u v : FileTree} {l k : Location} {node other : FileNode} {f : FileFault}

/-- A place below the root holds a node, and no entry of the tree says otherwise. -/
structure Settled (t : FileTree) (l : Location) (node : FileNode) : Prop where
  ne_root : l ≠ []
  mem : (l, node) ∈ t.nodes
  only : ∀ p ∈ t.nodes, p.1 = l → p = (l, node)

private theorem find?_of_ne_root (h : l ≠ []) : t.find? l = t.nodes.lookup l := by
  simp [find?, h]

theorem Settled.find? (h : t.Settled l node) : t.find? l = some node := by
  rw [find?_of_ne_root h.ne_root]
  cases hlookup : t.nodes.lookup l with
  | none =>
    have hnone := List.lookup_eq_none_iff.mp hlookup (l, node) h.mem
    simp at hnone
  | some found =>
    obtain ⟨before, after, hsplit, -⟩ := List.lookup_eq_some_iff.mp hlookup
    have hfound := h.only (l, found) (by simp [hsplit]) rfl
    rw [(Prod.mk.inj hfound).2]

theorem settled_set (t : FileTree) (h : l ≠ []) (node : FileNode) :
    (t.set l node).Settled l node := by
  unfold set
  split
  · rename_i hany
    obtain ⟨p, hp, hkey⟩ := List.any_eq_true.mp hany
    refine ⟨h, List.mem_map.mpr ⟨p, hp, if_pos hkey⟩, ?_⟩
    intro q hq hplace
    obtain ⟨r, -, rfl⟩ := List.mem_map.mp hq
    by_cases hr : (r.1 == l) = true
    · rw [if_pos hr]
    · rw [if_neg hr] at hplace
      exact absurd (beq_iff_eq.mpr hplace) hr
  · rename_i hany
    refine ⟨h, by simp, ?_⟩
    intro q hq hplace
    rcases List.mem_append.mp hq with hq | hq
    · exact absurd (List.any_eq_true.mpr ⟨q, hq, by simp [hplace]⟩) hany
    · exact List.mem_singleton.mp hq

theorem Settled.set_eq (h : t.Settled l node) : t.set l node = t := by
  have hany : t.nodes.any (·.1 == l) = true :=
    List.any_eq_true.mpr ⟨_, h.mem, beq_self_eq_true l⟩
  have hsame : ∀ p ∈ t.nodes, (if p.1 == l then (l, node) else p) = p := by
    intro p hp
    split
    · rename_i hkey
      exact (h.only p hp (beq_iff_eq.mp hkey)).symm
    · rfl
  rw [set, if_pos hany, List.map_congr_left hsame, List.map_id']

private theorem lookup_map_of_ne (h : k ≠ l) (nodes : List (Location × FileNode)) :
    (nodes.map fun p => if p.1 == l then (l, node) else p).lookup k = nodes.lookup k := by
  induction nodes with
  | nil => rfl
  | cons p rest ih =>
    rw [List.map_cons, List.lookup_cons, List.lookup_cons, ih]
    by_cases hp : p.1 = l
    · have hkp : (k == p.1) = false := by simpa [hp] using h
      have hkl : (k == l) = false := by simpa using h
      simp [hp, hkl]
    · simp [hp]

theorem find?_set_of_ne (h : k ≠ l) : (t.set l node).find? k = t.find? k := by
  by_cases hk : k = []
  · simp [find?, hk]
  · rw [find?_of_ne_root hk, find?_of_ne_root hk]
    unfold set
    split
    · exact lookup_map_of_ne h t.nodes
    · have hkl : (k == l) = false := by simpa using h
      simp [List.lookup_append, List.lookup_cons, hkl]

theorem Settled.set_of_ne (h : t.Settled k other) (hne : k ≠ l) :
    (t.set l node).Settled k other := by
  unfold set
  split
  · have hkey : (k == l) = false := by simpa using hne
    refine ⟨h.ne_root, List.mem_map.mpr ⟨_, h.mem, by simp [hkey]⟩, ?_⟩
    intro q hq hplace
    obtain ⟨p, hp, rfl⟩ := List.mem_map.mp hq
    by_cases hp' : (p.1 == l) = true
    · rw [if_pos hp'] at hplace
      exact absurd hplace (Ne.symm hne)
    · rw [if_neg hp'] at hplace ⊢
      exact h.only p hp hplace
  · refine ⟨h.ne_root, List.mem_append_left _ h.mem, ?_⟩
    intro q hq hplace
    rcases List.mem_append.mp hq with hq | hq
    · exact h.only q hq hplace
    · rw [List.mem_singleton.mp hq] at hplace
      exact absurd hplace (Ne.symm hne)

section Walk

variable {parts before after : List String}

theorem walk_append (t : FileTree) (before after : List String) (l : Location) :
    t.walk (before ++ after) l = (t.walk before l).bind (t.walk after) := by
  fun_induction walk t before l with
  | case1 l => rfl
  | case2 part rest l hnone => simp [walk, hnone, Except.bind]
  | case3 part rest l content hfile => simp [walk, hfile, Except.bind]
  | case4 part rest l hdirectory hidle ih => simp [walk, hdirectory, hidle, ih]
  | case5 rest l hdirectory hidle ih => simp [walk, hdirectory, ih]
  | case6 part rest l hdirectory hidle hup ih => simp [walk, hdirectory, hidle, hup, ih]

theorem walk_append_eq_ok (h : t.walk (before ++ after) l = .ok k) :
    ∃ m, t.walk before l = .ok m ∧ t.walk after m = .ok k := by
  rw [walk_append] at h
  cases hbefore : t.walk before l with
  | error f => simp [hbefore, Except.bind] at h
  | ok m => exact ⟨m, rfl, by simpa [hbefore, Except.bind] using h⟩

theorem walk_name {name : List Char} (hname : Path.IsName name)
    (h : t.walk (String.ofList name :: parts) l = .ok k) :
    t.find? l = some .directory ∧ t.walk parts (l ++ [String.ofList name]) = .ok k := by
  have hne : ∀ s : String, name ≠ s.toList → String.ofList name ≠ s := by
    rintro s hs rfl
    exact hs String.toList_ofList.symm
  have hempty := hne "" hname.1
  have hpoint := hne "." hname.2.1
  have hup := hne ".." hname.2.2
  rw [walk] at h
  split at h
  · cases h
  · cases h
  · rename_i hdirectory
    rw [if_neg (by simp [hempty, hpoint]), if_neg hup] at h
    exact ⟨hdirectory, h⟩

theorem walk_names {names : List (List Char)} (hnames : ∀ name ∈ names, Path.IsName name)
    (h : t.walk (names.map String.ofList) l = .ok k) : k = l ++ names.map String.ofList := by
  induction names generalizing l with
  | nil =>
    rw [List.map_nil, List.append_nil]
    exact (Except.ok.inj h).symm
  | cons name rest ih =>
    obtain ⟨-, hrest⟩ := walk_name (hnames name List.mem_cons_self) h
    have hk := ih (fun n hn => hnames n (List.mem_cons_of_mem _ hn)) hrest
    rw [hk, List.map_cons, List.append_assoc, List.singleton_append]

theorem walk_idle (hidle : ∀ part ∈ parts, part = "" ∨ part = ".")
    (h : t.walk parts l = .ok k) : k = l := by
  induction parts with
  | nil => exact (Except.ok.inj h).symm
  | cons part rest ih =>
    have hpart := hidle part List.mem_cons_self
    rw [walk] at h
    split at h
    · cases h
    · cases h
    · rw [if_pos hpart] at h
      exact ih (fun p hp => hidle p (List.mem_cons_of_mem _ hp)) h

theorem directory_of_walk_cons {part : String} (h : t.walk (part :: parts) l = .ok k) :
    t.find? l = some .directory := by
  rw [walk] at h
  split at h
  · cases h
  · cases h
  · assumption

theorem walk_of_directories (hstay : ∀ l, t.find? l = some .directory → u.find? l = some .directory)
    (h : t.walk parts l = .ok k) : u.walk parts l = .ok k := by
  fun_induction walk t parts l with
  | case1 l => exact h
  | case2 => cases h
  | case3 => cases h
  | case4 part rest l hdirectory hidle ih => simp [walk, hstay l hdirectory, hidle, ih h]
  | case5 rest l hdirectory hidle ih => simp [walk, hstay l hdirectory, ih h]
  | case6 part rest l hdirectory hidle hup ih =>
    simp [walk, hstay l hdirectory, hidle, hup, ih h]

private theorem fault_of_walk (h : t.walk parts l = .error f) :
    f = .notFound ∨ f = .notDirectory := by
  fun_induction walk t parts l with
  | case1 l => cases h
  | case2 => exact .inl (Except.error.inj h).symm
  | case3 => exact .inr (Except.error.inj h).symm
  | case4 part rest l hdirectory hidle ih => exact ih h
  | case5 rest l hdirectory hidle ih => exact ih h
  | case6 part rest l hdirectory hidle hup ih => exact ih h

end Walk

variable {path : String}

theorem locate_eq_ok_iff :
    t.locate path = .ok l ↔
      path ≠ "" ∧ t.walk ((Path.parts path).map String.ofList) [] = .ok l := by
  unfold locate
  by_cases h : path = ""
  · simp [h]
  · simp [h, String.isEmpty_iff]

theorem isDirectory_iff :
    t.isDirectory path = true ↔ ∃ l, t.locate path = .ok l ∧ t.find? l = some .directory := by
  unfold isDirectory
  cases t.locate path with
  | error f => simp
  | ok l =>
    simp only [Except.ok.injEq, exists_eq_left']
    split <;> simp_all

private theorem walk_withoutFinalSlashes (h : t.locate path = .ok l) :
    t.walk (withoutFinalSlashes path) [] = .ok l := by
  have hwalk := (locate_eq_ok_iff.mp h).2
  have hsplit : ((Path.parts path).reverse.dropWhile List.isEmpty).reverse ++
      ((Path.parts path).reverse.takeWhile List.isEmpty).reverse = Path.parts path := by
    rw [← List.reverse_append, List.takeWhile_append_dropWhile, List.reverse_reverse]
  rw [← hsplit, List.map_append] at hwalk
  obtain ⟨m, hm, hslashes⟩ := walk_append_eq_ok hwalk
  have hempty : ∀ part ∈ (((Path.parts path).reverse.takeWhile List.isEmpty).reverse).map
      String.ofList, part = "" ∨ part = "." := by
    intro part hpart
    obtain ⟨cs, hcs, rfl⟩ := List.mem_map.mp hpart
    have hnil := List.mem_takeWhile_imp (List.mem_reverse.mp hcs)
    exact .inl (by rw [List.isEmpty_iff.mp hnil])
  rw [walk_idle hempty hslashes]
  exact hm

theorem makeDirectory_of_isDirectory (h : t.isDirectory path = true) :
    t.makeDirectory path = .error .alreadyThere := by
  obtain ⟨l, hl, hdirectory⟩ := isDirectory_iff.mp h
  have hne := (locate_eq_ok_iff.mp hl).1
  unfold makeDirectory
  rw [walk_withoutFinalSlashes hl]
  simp [hne, hdirectory, String.isEmpty_iff]

theorem makeDirectory_eq_ok (h : t.makeDirectory path = .ok u) :
    ∃ l, t.find? l = none ∧ u = t.set l .directory := by
  unfold makeDirectory at h
  split at h
  · cases h
  · split at h
    · cases h
    · rename_i l _
      split at h
      · cases h
      · rename_i hnone
        exact ⟨l, hnone, (Except.ok.inj h).symm⟩

theorem write_eq_ok_iff {content : ByteArray} :
    t.write path content = .ok u ↔
      ∃ l, t.locate path = .ok l ∧ t.find? l ≠ some .directory ∧ u = t.set l (.file content) := by
  unfold write
  cases t.locate path with
  | error f => simp
  | ok l =>
    simp only [Except.ok.injEq, exists_eq_left']
    split
    · simp_all
    · simp_all [eq_comm]

/-! What a path can fail with when it is read. -/

/-- Something is there at a path. -/
def Has (t : FileTree) (path : String) : Prop :=
  ∃ l node, t.locate path = .ok l ∧ t.find? l = some node

private theorem fault_of_locate (h : t.locate path = .error f) :
    f = .notFound ∨ f = .notDirectory := by
  unfold locate at h
  split at h
  · exact .inl (Except.error.inj h).symm
  · exact fault_of_walk h

theorem read_of_not_has (h : ¬ t.Has path) :
    t.read path = .error .notFound ∨ t.read path = .error .notDirectory := by
  unfold read contentAt
  cases hl : t.locate path with
  | error f => rcases fault_of_locate hl with rfl | rfl <;> simp
  | ok l =>
    cases hnode : t.find? l with
    | none => simp [hnode]
    | some node => exact absurd ⟨l, node, hl, hnode⟩ h

theorem ne_notFound_of_has (h : t.Has path) : t.read path ≠ .error .notFound := by
  obtain ⟨l, node, hl, hnode⟩ := h
  unfold read contentAt
  rw [hl]
  cases node with
  | directory => simp [hnode]
  | file content =>
    simp only [hnode]
    split <;> simp

theorem exists_locate_of_read {text : String} (h : t.read path = .ok text) :
    ∃ l, t.locate path = .ok l := by
  unfold read contentAt at h
  cases hl : t.locate path with
  | ok l => exact ⟨l, rfl⟩
  | error f => simp [hl] at h

theorem ne_notDirectory_of_locate (h : t.locate path = .ok l) :
    t.read path ≠ .error .notDirectory := by
  unfold read contentAt
  rw [h]
  cases hnode : t.find? l with
  | none => simp [hnode]
  | some node =>
    cases node with
    | directory => simp [hnode]
    | file content =>
      simp only [hnode]
      split <;> simp

end NativeBindings.FileTree
