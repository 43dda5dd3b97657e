import Mathlib.Algebra.BigOperators.Group.List.Basic
import Mathlib.Algebra.GroupWithZero.Nat
import NativeBindings.Proofs.Generation.Execution
import NativeBindings.Proofs.HostModule.Rendering

set_option autoImplicit false
set_option relaxedAutoImplicit false

/-!
What a generation whose plan does not fail writes and counts: the type module, and of each category
two modules of the same functions. Every signature is counted, as a function or as left out.
-/

namespace NativeBindings

namespace Plan

private theorem of_andThen_none {p q : Plan} (h : (p.andThen q).failure = none) :
    p.failure = none ∧ q.failure = none := by
  cases hp : p.failure with
  | some f =>
    rw [andThen_of_some hp, hp] at h
    cases h
  | none => exact ⟨rfl, (andThen_of_none hp q).1.symm.trans h⟩

private theorem of_sequence_none {ps : List Plan} (h : (sequence ps).failure = none) :
    ∀ p ∈ ps, p.failure = none := by
  induction ps with
  | nil => simp
  | cons p rest ih =>
    obtain ⟨hp, hrest⟩ := of_andThen_none h
    intro q hq
    rcases List.mem_cons.mp hq with rfl | hq
    · exact hp
    · exact ih hrest q hq

private theorem skipped_andThen {p : Plan} (h : p.failure = none) (q : Plan) :
    (p.andThen q).skipped = p.skipped + q.skipped := by
  simp [andThen, h]

private theorem skipped_sequence {ps : List Plan} (h : ∀ p ∈ ps, p.failure = none) :
    (sequence ps).skipped = (ps.map (·.skipped)).sum := by
  induction ps with
  | nil => rfl
  | cons p rest ih =>
    have hrest := ih fun q hq => h q (List.mem_cons_of_mem _ hq)
    rw [sequence, skipped_andThen (h p List.mem_cons_self), hrest, List.map_cons, List.sum_cons]

private theorem mem_files_andThen {p q : Plan} {file : OutputFile}
    (h : file ∈ (p.andThen q).files) :
    file ∈ p.files ∨ file ∈ q.files := by
  cases hp : p.failure with
  | some f =>
    rw [andThen_of_some hp] at h
    exact .inl h
  | none =>
    rw [(andThen_of_none hp q).2] at h
    exact List.mem_append.mp h

private theorem mem_files_sequence {ps : List Plan} {file : OutputFile}
    (h : file ∈ (sequence ps).files) : ∃ p ∈ ps, file ∈ p.files := by
  induction ps with
  | nil => cases h
  | cons p rest ih =>
    rcases mem_files_andThen h with h | h
    · exact ⟨p, List.mem_cons_self, h⟩
    · obtain ⟨q, hq, hfile⟩ := ih h
      exact ⟨q, List.mem_cons_of_mem _ hq, hfile⟩

end Plan

theorem Category.mem_all (c : Category) : c ∈ Category.all := by
  cases c <;> decide

private theorem length_lowered {c : Category} {table : TypeTable} {signatures : List Signature}
    {l : Lowered} (h : lower c table signatures = .ok l) :
    l.stanzas.length + l.skipped.length = signatures.length := by
  obtain ⟨all, hall, rfl⟩ := Traversal.map_eq_ok_iff.mp h
  have hlength := (Traversal.mapM_eq_ok_iff.mp hall).length_eq
  rw [hlength]
  exact length_keepFirst_add all

namespace Generation

variable {job : Job} {c : Category} {signatures : List Signature} {l : Lowered}

def cells (categories : List Category) : List (Category × Ownership) :=
  categories.flatMap fun c => Ownership.all.map fun o => (c, o)

theorem files_log (lines : List LogLine) (steps : List Step) :
    Step.files (lines.map .log ++ steps) = Step.files steps := by
  induction lines with
  | nil => rfl
  | cons line rest ih => exact ih

def moduleFile (job : Job) (c : Category) (o : Ownership) (l : Lowered) : OutputFile where
  path := modulePath job c o
  text := (job.spec c o).textOf job.table l.stanzas
  functions := l.stanzas.length

private theorem modulePlan_of_lowered (h : lower c job.table signatures = .ok l) (o : Ownership) :
    (modulePlan job c signatures o).failure = none ∧
      (modulePlan job c signatures o).files = [moduleFile job c o l] ∧
      (modulePlan job c signatures o).skipped = if o = .unmanaged then l.skipped.length else 0 := by
  have hrender : (job.spec c o).render job.table signatures =
      .ok ⟨(job.spec c o).textOf job.table l.stanzas, l.stanzas, l.skipped⟩ :=
    Traversal.map_eq_ok_iff.mpr ⟨l, h, rfl⟩
  unfold modulePlan
  rw [hrender]
  exact ⟨rfl, files_log _ _, rfl⟩

private theorem exists_lowered_of_modulePlan {o : Ownership}
    (h : (modulePlan job c signatures o).failure = none) :
    ∃ l, lower c job.table signatures = .ok l := by
  cases hlower : lower c job.table signatures with
  | ok l => exact ⟨l, rfl⟩
  | error cause =>
    have hrender : (job.spec c o).render job.table signatures = .error cause :=
      Traversal.map_eq_error_iff.mpr hlower
    unfold modulePlan at h
    rw [hrender] at h
    cases h

private theorem path_of_mem_modulePlan {o : Ownership} {file : OutputFile}
    (h : file ∈ (modulePlan job c signatures o).files) : file.path = modulePath job c o := by
  unfold modulePlan at h
  cases hrender : (job.spec c o).render job.table signatures with
  | error cause =>
    have hlog := files_log (skipLines c job.table signatures) []
    rw [List.append_nil] at hlog
    rw [hrender, Plan.files, hlog] at h
    cases h
  | ok m =>
    rw [hrender, Plan.files, files_log] at h
    rw [List.mem_singleton.mp h]

def modulePlans (job : Job) (c : Category) : List Plan :=
  Ownership.all.map (modulePlan job c (c.signatures job.declarations))

theorem categoryPlan_of_modulePlans (job : Job) (c : Category) :
    (categoryPlan job c).failure = (Plan.sequence (modulePlans job c)).failure ∧
      (categoryPlan job c).files = (Plan.sequence (modulePlans job c)).files ∧
      (categoryPlan job c).skipped = (Plan.sequence (modulePlans job c)).skipped := by
  have hlog : (⟨[.log (.collected c (c.signatures job.declarations).length)], none, 0⟩ :
      Plan).failure = none := rfl
  obtain ⟨hfailure, hfiles⟩ := Plan.andThen_of_none hlog (.sequence (modulePlans job c))
  have hskipped := Plan.skipped_andThen hlog (.sequence (modulePlans job c))
  exact ⟨hfailure, hfiles, hskipped.trans (Nat.zero_add _)⟩

theorem plan_of_categoryPlans (job : Job) :
    (plan job).failure = (Plan.sequence (Category.all.map (categoryPlan job))).failure ∧
      (plan job).files =
        typeFile job :: (Plan.sequence (Category.all.map (categoryPlan job))).files ∧
      (plan job).skipped = (Plan.sequence (Category.all.map (categoryPlan job))).skipped := by
  have htypes : (⟨[.write (typeFile job)], none, 0⟩ : Plan).failure = none := rfl
  obtain ⟨hfailure, hfiles⟩ :=
    Plan.andThen_of_none htypes (.sequence (Category.all.map (categoryPlan job)))
  have hskipped := Plan.skipped_andThen htypes (.sequence (Category.all.map (categoryPlan job)))
  exact ⟨hfailure, hfiles, hskipped.trans (Nat.zero_add _)⟩

theorem path_of_mem_plan {file : OutputFile} (h : file ∈ (plan job).files) :
    file.path = (typeFile job).path ∨ ∃ c o, file.path = modulePath job c o := by
  rw [(plan_of_categoryPlans job).2.1] at h
  rcases List.mem_cons.mp h with rfl | h
  · exact .inl rfl
  · obtain ⟨_, hp, h⟩ := Plan.mem_files_sequence h
    obtain ⟨c, -, rfl⟩ := List.mem_map.mp hp
    rw [(categoryPlan_of_modulePlans job c).2.1] at h
    obtain ⟨_, hq, h⟩ := Plan.mem_files_sequence h
    obtain ⟨o, -, rfl⟩ := List.mem_map.mp hq
    exact .inr ⟨c, o, path_of_mem_modulePlan h⟩

theorem categoryPlan_of_lowered
    (h : lower c job.table (c.signatures job.declarations) = .ok l) :
    (categoryPlan job c).failure = none ∧
      (categoryPlan job c).files = Ownership.all.map (fun o => moduleFile job c o l) ∧
      (categoryPlan job c).skipped = l.skipped.length := by
  have hnone : ∀ p ∈ modulePlans job c, p.failure = none := by
    intro p hp
    obtain ⟨o, -, rfl⟩ := List.mem_map.mp hp
    exact (modulePlan_of_lowered h o).1
  obtain ⟨hfailure, hfiles⟩ := Plan.sequence_of_none hnone
  have hskipped := Plan.skipped_sequence hnone
  obtain ⟨-, hunmanaged, hleftOut⟩ := modulePlan_of_lowered h .unmanaged
  obtain ⟨-, hmanaged, hnothing⟩ := modulePlan_of_lowered h .managed
  obtain ⟨hsame, hsameFiles, hsameSkipped⟩ := categoryPlan_of_modulePlans job c
  refine ⟨hsame.trans hfailure, ?_, ?_⟩
  · rw [hsameFiles, hfiles, modulePlans, Ownership.all, List.map_cons, List.map_singleton,
      List.flatMap_cons, List.flatMap_singleton, hunmanaged, hmanaged]
    rfl
  · rw [hsameSkipped, hskipped, modulePlans, Ownership.all, List.map_cons, List.map_singleton,
      List.map_cons, List.map_singleton, hleftOut, hnothing]
    simp

private theorem exists_lowered_of_categoryPlan (h : (categoryPlan job c).failure = none) :
    ∃ l, lower c job.table (c.signatures job.declarations) = .ok l := by
  rw [(categoryPlan_of_modulePlans job c).1] at h
  have hmodules := Plan.of_sequence_none h
  have hfirst : modulePlan job c (c.signatures job.declarations) .unmanaged ∈ modulePlans job c :=
    List.mem_cons_self
  exact exists_lowered_of_modulePlan (hmodules _ hfirst)

theorem exists_lowered_of_plan (h : (plan job).failure = none) :
    ∃ lowered : Category → Lowered,
      ∀ c, lower c job.table (c.signatures job.declarations) = .ok (lowered c) := by
  rw [(plan_of_categoryPlans job).1] at h
  have hcategories := Plan.of_sequence_none h
  have hall : ∀ c, ∃ l, lower c job.table (c.signatures job.declarations) = .ok l := fun c =>
    exists_lowered_of_categoryPlan (hcategories _ (List.mem_map_of_mem c.mem_all))
  exact Classical.axiomOfChoice hall

theorem plan_of_lowered {lowered : Category → Lowered}
    (h : ∀ c, lower c job.table (c.signatures job.declarations) = .ok (lowered c)) :
    (plan job).files = typeFile job ::
        (cells Category.all).map (fun cell => moduleFile job cell.1 cell.2 (lowered cell.1)) ∧
      (plan job).skipped = (Category.all.map fun c => (lowered c).skipped.length).sum := by
  have hnone : ∀ p ∈ Category.all.map (categoryPlan job), p.failure = none := by
    intro p hp
    obtain ⟨c, -, rfl⟩ := List.mem_map.mp hp
    exact (categoryPlan_of_lowered (h c)).1
  have hmodules : ∀ c, (categoryPlan job c).files =
      Ownership.all.map (fun o => moduleFile job c o (lowered c)) :=
    fun c => (categoryPlan_of_lowered (h c)).2.1
  have hskipped : ∀ c, (categoryPlan job c).skipped = (lowered c).skipped.length :=
    fun c => (categoryPlan_of_lowered (h c)).2.2
  obtain ⟨-, hfiles, hcount⟩ := plan_of_categoryPlans job
  constructor
  · rw [hfiles, (Plan.sequence_of_none hnone).2, cells, List.flatMap_map, List.map_flatMap]
    simp only [hmodules, List.map_map]
    rfl
  · rw [hcount, Plan.skipped_sequence hnone, List.map_map]
    simp [Function.comp_def, hskipped]

theorem sum_lowered {lowered : Category → Lowered}
    (h : ∀ c, lower c job.table (c.signatures job.declarations) = .ok (lowered c)) :
    (plan job).skipped + (Category.all.map fun c => (lowered c).stanzas.length).sum =
      (Category.all.map fun c => (c.signatures job.declarations).length).sum := by
  rw [(plan_of_lowered h).2, ← List.sum_map_add]
  congr 1
  apply List.map_congr_left
  intro c _
  rw [← length_lowered (h c), Nat.add_comm]

end Generation

end NativeBindings
