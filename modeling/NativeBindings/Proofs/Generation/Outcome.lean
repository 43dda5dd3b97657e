import NativeBindings.Proofs.Generation.Placement
import NativeBindings.Proofs.Signature.Collect

set_option autoImplicit false
set_option relaxedAutoImplicit false

/-!
How a generation ends where no call of the file system fails. Main statement: it fails just if some
declaration that the neural network, legacy or native category takes has an unmapped type; it then
reports the first such type, and has put the modules of the categories before to their places and
nothing else to any.
-/

namespace NativeBindings.Generation

open FileTree (Apart)
open OutputFile (allCalls)

variable {job : Job} {c : Category}

/-- A category takes mapped declarations only. -/
def Job.MapsAll (job : Job) (c : Category) : Prop :=
  ∀ d ∈ job.declarations, c.admits d = true → (Signature.ofDeclaration d).Mapped job.table

/-- The first category, in the order of output, that takes an unmapped declaration, with the first
such declaration of it and the first unmapped type of that. -/
structure FirstFailure (job : Job) (before : List Category) (c : Category) (after : List Category)
    (d : Declaration) (t : NativeType) : Prop where
  order : Category.all = before ++ c :: after
  mapped : ∀ b ∈ before, job.MapsAll b
  declaration : ∃ earlier later, job.declarations.filter c.admits = earlier ++ d :: later ∧
    ∀ e ∈ earlier, (Signature.ofDeclaration e).Mapped job.table
  type : (Signature.ofDeclaration d).FirstUnmapped job.table t

private theorem exists_firstFailure (h : ∃ c ∈ Category.all, ¬ job.MapsAll c) :
    ∃ before c after d t, FirstFailure job before c after d t := by
  obtain ⟨before, c, after, horder, hbefore, hc⟩ := exists_first_not h
  have hadmitted : ∃ d ∈ job.declarations.filter c.admits,
      ¬ (Signature.ofDeclaration d).Mapped job.table := by
    simpa [Job.MapsAll, List.mem_filter, and_assoc] using hc
  obtain ⟨earlier, d, later, hsplit, hearlier, hd⟩ := exists_first_not hadmitted
  obtain ⟨t, ht⟩ := Signature.exists_firstUnmapped hd
  exact ⟨before, c, after, d, t, horder, hbefore, ⟨earlier, later, hsplit, hearlier⟩, ht⟩

private theorem mapsAll_factory (h : job.MapsAll .native) : job.MapsAll .factory := by
  intro d hd hadmits
  exact h d hd (Category.admits_native_of_factory hadmits)

theorem FirstFailure.unmapped {before after : List Category} {d : Declaration} {t : NativeType}
    (h : FirstFailure job before c after d t) :
    d ∈ job.declarations ∧ c.admits d = true ∧ ¬ (Signature.ofDeclaration d).Mapped job.table := by
  obtain ⟨earlier, later, hsplit, -⟩ := h.declaration
  have hd : d ∈ job.declarations.filter c.admits := by simp [hsplit]
  obtain ⟨hmem, hadmits⟩ := List.mem_filter.mp hd
  exact ⟨hmem, hadmits, h.type.not_mapped⟩

private theorem FirstFailure.ne_factory {before after : List Category} {d : Declaration}
    {t : NativeType}
    (h : FirstFailure job before c after d t) : c ≠ .factory := by
  rintro rfl
  have hnative : Category.native ∈ before := by
    have horder := h.order
    rcases before with _ | ⟨b₁, _ | ⟨b₂, _ | ⟨b₃, rest⟩⟩⟩ <;> simp_all [Category.all]
  obtain ⟨hmem, hadmits, hd⟩ := h.unmapped
  exact hd (mapsAll_factory (h.mapped _ hnative) d hmem hadmits)

/-- A declaration that the neural network, legacy or native category takes uses an unmapped type. -/
def Job.HasUnmapped (job : Job) : Prop :=
  ∃ d ∈ job.declarations, (Category.neuralNet.admits d = true ∨
    Category.legacy.admits d = true ∨ Category.native.admits d = true) ∧
    ¬ (Signature.ofDeclaration d).Mapped job.table

private theorem FirstFailure.exists_unmapped {before after : List Category} {d : Declaration}
    {t : NativeType} (h : FirstFailure job before c after d t) : job.HasUnmapped := by
  have hne := h.ne_factory
  obtain ⟨hmem, hadmits, hd⟩ := h.unmapped
  refine ⟨d, hmem, ?_, hd⟩
  cases c with
  | neuralNet => exact .inl hadmits
  | legacy => exact .inr (.inl hadmits)
  | native => exact .inr (.inr hadmits)
  | factory => exact absurd rfl hne

private theorem exists_not_mapsAll (h : job.HasUnmapped) : ∃ c ∈ Category.all, ¬ job.MapsAll c := by
  obtain ⟨d, hmem, hadmits, hd⟩ := h
  rcases hadmits with hadmits | hadmits | hadmits
  · exact ⟨.neuralNet, by decide, fun hmaps => hd (hmaps d hmem hadmits)⟩
  · exact ⟨.legacy, by decide, fun hmaps => hd (hmaps d hmem hadmits)⟩
  · exact ⟨.native, by decide, fun hmaps => hd (hmaps d hmem hadmits)⟩

/-- The file is the rendered module of a category and an ownership. -/
def IsModuleFile (job : Job) (cell : Category × Ownership) (file : OutputFile) : Prop :=
  ∃ m, (job.spec cell.1 cell.2).render job.table (cell.1.signatures job.declarations) = .ok m ∧
    file = ⟨modulePath job cell.1 cell.2, m.text, m.stanzas.length⟩

private theorem isModuleFile_of_lowered {l : Lowered}
    (h : lower c job.table (c.signatures job.declarations) = .ok l) (o : Ownership) :
    IsModuleFile job (c, o) (moduleFile job c o l) :=
  ⟨_, Traversal.map_eq_ok_iff.mpr ⟨l, h, rfl⟩, rfl⟩

private theorem modulePlan_of_firstUnmappedIn {s : Signature} {t : NativeType}
    (h : FirstUnmappedIn job.table (c.signatures job.declarations) s t) (o : Ownership) :
    (modulePlan job c (c.signatures job.declarations) o).failure =
        some ⟨(job.spec c o).name, ⟨t.pointee.spelling, s.name⟩⟩ ∧
      (modulePlan job c (c.signatures job.declarations) o).files = [] := by
  have hlog := files_log (skipLines c job.table (c.signatures job.declarations)) []
  rw [List.append_nil] at hlog
  unfold modulePlan
  rw [(job.spec c o).render_of_firstUnmappedIn h]
  exact ⟨rfl, hlog⟩

private theorem categoryPlan_of_mapped (h : job.MapsAll c) :
    (categoryPlan job c).failure = none ∧
      List.Forall₂ (IsModuleFile job) (cells [c]) (categoryPlan job c).files := by
  obtain ⟨all, -, hlower⟩ := exists_lower_of_mapped c (Category.signatures_mapped h)
  obtain ⟨hfailure, hfiles, -⟩ := categoryPlan_of_lowered hlower
  refine ⟨hfailure, ?_⟩
  rw [hfiles]
  exact .cons (isModuleFile_of_lowered hlower .unmanaged)
    (.cons (isModuleFile_of_lowered hlower .managed) .nil)

private theorem categoryPlan_of_firstUnmappedIn {s : Signature} {t : NativeType}
    (h : FirstUnmappedIn job.table (c.signatures job.declarations) s t) :
    (categoryPlan job c).failure =
        some ⟨(job.spec c .unmanaged).name, ⟨t.pointee.spelling, s.name⟩⟩ ∧
      (categoryPlan job c).files = [] := by
  obtain ⟨hmodule, hempty⟩ := modulePlan_of_firstUnmappedIn h .unmanaged
  have hnothing : ∀ p ∈ ([] : List Plan), p.failure = none := by simp
  obtain ⟨hfailure, hfiles⟩ := Plan.sequence_of_some hnothing hmodule
    [modulePlan job c (c.signatures job.declarations) .managed]
  obtain ⟨hsame, hsameFiles, -⟩ := categoryPlan_of_modulePlans job c
  exact ⟨hsame.trans hfailure, hsameFiles.trans (hfiles.trans hempty)⟩

private theorem categoryPlans_of_mapped {categories : List Category}
    (h : ∀ b ∈ categories, job.MapsAll b) :
    List.Forall₂ (IsModuleFile job) (cells categories)
      (categories.flatMap fun b => (categoryPlan job b).files) := by
  induction categories with
  | nil => exact .nil
  | cons b rest ih =>
    have hb := (categoryPlan_of_mapped (h b List.mem_cons_self)).2
    have hrest := ih fun c hc => h c (List.mem_cons_of_mem _ hc)
    exact List.rel_append hb hrest

theorem plan_of_mapped (h : ∀ c ∈ Category.all, job.MapsAll c) : (plan job).failure = none := by
  have hnone : ∀ p ∈ Category.all.map (categoryPlan job), p.failure = none := by
    intro p hp
    obtain ⟨c, hc, rfl⟩ := List.mem_map.mp hp
    exact (categoryPlan_of_mapped (h c hc)).1
  exact (plan_of_categoryPlans job).1.trans (Plan.sequence_of_none hnone).1

/-- A generation with an unmapped type fails at the first one, behind the modules of the categories
before. -/
theorem plan_of_firstFailure (hlegible : ∀ d ∈ job.declarations, d.Parsed ∧ d.Identified)
    {before after : List Category} {d : Declaration} {t : NativeType}
    (h : FirstFailure job before c after d t) :
    (plan job).failure =
        some ⟨(job.spec c .unmanaged).name, ⟨t.pointee.spelling, d.name⟩⟩ ∧
      ∃ files, (plan job).files = typeFile job :: files ∧
        List.Forall₂ (IsModuleFile job) (cells before) files := by
  obtain ⟨earlier, later, hsplit, hearlier⟩ := h.declaration
  have hfirst := Category.signatures_firstUnmappedIn hlegible hsplit hearlier h.type
  obtain ⟨hcategory, hempty⟩ := categoryPlan_of_firstUnmappedIn hfirst
  have hnone : ∀ p ∈ before.map (categoryPlan job), p.failure = none := by
    intro p hp
    obtain ⟨b, hb, rfl⟩ := List.mem_map.mp hp
    exact (categoryPlan_of_mapped (h.mapped b hb)).1
  -- The categories before run to their end, the failing one stops before its first module.
  obtain ⟨hfailure, hfiles⟩ :=
    Plan.sequence_of_some hnone hcategory (after.map (categoryPlan job))
  obtain ⟨hsame, hsameFiles, -⟩ := plan_of_categoryPlans job
  have hall : Category.all.map (categoryPlan job) =
      before.map (categoryPlan job) ++ categoryPlan job c :: after.map (categoryPlan job) := by
    rw [h.order, List.map_append, List.map_cons]
  rw [← hall] at hfailure hfiles
  refine ⟨hsame.trans hfailure, before.flatMap fun b => (categoryPlan job b).files, ?_,
    categoryPlans_of_mapped h.mapped⟩
  rw [hsameFiles, hfiles, hempty, List.append_nil, List.flatMap_map]

private theorem FirstFailure.modulePath_notMem {before after : List Category} {d : Declaration}
    {t : NativeType} (h : FirstFailure job before c after d t)
    (hconfiguration : job.configuration.WellFormed) {files : List OutputFile}
    (hfiles : List.Forall₂ (IsModuleFile job) (cells before) files) {late : Category}
    (hlate : late ∈ c :: after) (o : Ownership) :
    modulePath job late o ∉ (typeFile job :: files).map (·.path) := by
  rw [List.map_cons, List.mem_cons]
  rintro (htype | hmodule)
  · exact typeFile_path_ne_modulePath hconfiguration late o htype.symm
  · obtain ⟨file, hfile, hpath⟩ := List.mem_map.mp hmodule
    obtain ⟨⟨b, p⟩, hcell, m, -, rfl⟩ := Traversal.exists_of_forall₂_of_mem hfiles.flip hfile
    obtain ⟨b', hb, hcell⟩ := List.mem_flatMap.mp hcell
    obtain ⟨p', -, heq⟩ := List.mem_map.mp hcell
    cases heq
    obtain ⟨rfl, -⟩ := modulePath_inj hpath
    have hnodup : (before ++ c :: after).Nodup := by
      rw [← h.order]
      decide
    exact (List.nodup_append.mp hnodup).2.2 _ hb _ hlate rfl

theorem FirstFailure.apart {before after : List Category} {d : Declaration} {t : NativeType}
    (h : FirstFailure job before c after d t) (hconfiguration : job.configuration.WellFormed)
    (hroot : job.configuration.moduleRoot ≠ []) {files : List OutputFile}
    (hfiles : List.Forall₂ (IsModuleFile job) (cells before) files) :
    (typeFile job :: files).Pairwise fun f g => Apart f.path g.path := by
  have hall : (cells Category.all).Nodup := by decide
  rw [h.order, cells, List.flatMap_append] at hall
  refine apart_of_cells hconfiguration hroot (List.nodup_append.mp hall).1 (hfiles.imp ?_)
  rintro cell _ ⟨m, -, rfl⟩
  rfl

/-- The first unmapped type of the first such declaration of the first such category, which is not
that of the factories, is reported by the module of plain pointers. The files are the type module
and the modules of the categories before, and none of the others. -/
inductive ReportsFirst (job : Job) : GenerationFailure → List OutputFile → Prop
  | intro {before : List Category} {c : Category} {after : List Category} {d : Declaration}
      {t : NativeType} {files : List OutputFile} :
      FirstFailure job before c after d t → c ≠ .factory →
      List.Forall₂ (IsModuleFile job) (cells before) files →
      (∀ late ∈ c :: after, ∀ o,
        modulePath job late o ∉ (typeFile job :: files).map (·.path)) →
      ReportsFirst job (.render ⟨(job.spec c .unmanaged).name, ⟨t.pointee.spelling, d.name⟩⟩)
        (typeFile job :: files)

section Plan

variable (hdeclarations : ∀ d ∈ job.declarations, d.Parsed ∧ d.Identified)
include hdeclarations

theorem plan_failure_iff : (∃ f, (plan job).failure = some f) ↔ job.HasUnmapped := by
  constructor
  · rintro ⟨f, hf⟩
    have hunmapped : ∃ c ∈ Category.all, ¬ job.MapsAll c := by
      by_contra hmapped
      rw [plan_of_mapped (by simpa using hmapped)] at hf
      cases hf
    obtain ⟨before, c, after, d, t, h⟩ := exists_firstFailure hunmapped
    exact h.exists_unmapped
  · intro hunmapped
    obtain ⟨before, c, after, d, t, h⟩ := exists_firstFailure (exists_not_mapsAll hunmapped)
    exact ⟨_, (plan_of_firstFailure hdeclarations h).1⟩

variable (hconfiguration : job.configuration.WellFormed)
  (hroot : job.configuration.moduleRoot ≠ [])
include hconfiguration hroot

private theorem reportsFirst_of_plan {f : RenderFailure} (hf : (plan job).failure = some f) :
    ReportsFirst job (.render f) (plan job).files ∧
      (plan job).files.Pairwise fun f g => Apart f.path g.path := by
  obtain ⟨before, c, after, d, t, h⟩ :=
    exists_firstFailure (exists_not_mapsAll ((plan_failure_iff hdeclarations).mp ⟨f, hf⟩))
  obtain ⟨hfailure, files, hwritten, hmodules⟩ := plan_of_firstFailure hdeclarations h
  cases hfailure.symm.trans hf
  rw [hwritten]
  exact ⟨.intro h h.ne_factory hmodules fun late => h.modulePath_notMem hconfiguration hmodules,
    h.apart hconfiguration hroot hmodules⟩

end Plan

/-- Where no call of a generation fails, the generation fails just if a declaration that the neural
network, legacy or native category takes uses an unmapped type. It then reports the first such type
and has made just the calls for the type module and the modules of the categories before. In a tree
these files lie at places of their own, each with its text, and nothing else has changed. -/
theorem fails_at_first_unmapped (job : Job) {path : String} {found : Except FileFault String}
    {told : List LogLine}
    (hconfiguration : Configuration.ofFile path found = .ok (job.configuration, told))
    (hdeclarations : ∀ d ∈ job.declarations, d.Parsed ∧ d.Identified) :
    (∀ {σ : Type} (fs : FileSystem (StateM σ)) (st : σ),
      fs.NoneFails (allCalls (plan job).files) st →
      ((∃ e, ((run fs job).run st).1.2 = .error e) ↔ job.HasUnmapped) ∧
      ∀ e, ((run fs job).run st).1.2 = .error e →
        ∃ files, ReportsFirst job e files ∧
          ((run fs job).run st).2 = fs.after (allCalls files) st) ∧
    ∀ t : FileTree, FileTree.system.NoneFails (allCalls (plan job).files) t →
      ∀ e, ((run FileTree.system job).run t).1.2 = .error e →
        ∃ files, ReportsFirst job e files ∧
          Overwritten files t ((run FileTree.system job).run t).2 := by
  have hwellFormed := Configuration.ofFile_wellFormed hconfiguration
  have hroot := Configuration.ofFile_moduleRoot_ne_nil hconfiguration
  have hreports : ∀ {f}, (plan job).failure = some f → _ :=
    reportsFirst_of_plan hdeclarations hwellFormed hroot
  constructor
  · intro σ fs st hcalls
    obtain ⟨hstate, hend⟩ := run_of_noneFails fs hcalls
    constructor
    · rw [← plan_failure_iff hdeclarations]
      constructor
      · rintro ⟨e, he⟩
        obtain ⟨f, hf, -⟩ := (hend e).mp he
        exact ⟨f, hf⟩
      · rintro ⟨f, hf⟩
        exact ⟨.render f, (hend _).mpr ⟨f, hf, rfl⟩⟩
    · intro e he
      obtain ⟨f, hf, rfl⟩ := (hend e).mp he
      exact ⟨_, (hreports hf).1, hstate⟩
  · intro t hcalls e he
    obtain ⟨hstate, hend⟩ := run_of_noneFails FileTree.system hcalls
    obtain ⟨f, hf, rfl⟩ := (hend e).mp he
    obtain ⟨hfirst, hapart⟩ := hreports hf
    obtain ⟨hchange, hholds⟩ := changed_of_allCalls hapart hcalls hstate.symm
    exact ⟨_, hfirst, overwritten_of_changes hapart hchange hholds⟩

/-- A file system that keeps the text of every path, without regard to directories. -/
def flatSystem : FileSystem (StateM (List (String × String))) where
  read path := fun files =>
    match files.lookup path with
    | some text => (.ok text, files)
    | none => (.error .notFound, files)
  write path text := fun files => (.ok (), (path, text) :: files)
  makeDirectory _ := fun files => (.ok (), files)
  isDirectory _ := fun files => (true, files)
  size path := fun files => (((files.lookup path).getD "").utf8ByteSize, files)

private theorem flatSystem_noneFails (calls : List FileSystem.Call) (st : List (String × String)) :
    flatSystem.NoneFails calls st := by
  apply FileSystem.noneFails_of_forall
  intro call st
  cases call with
  | makeDirectories path =>
    rw [FileSystem.perform, FileSystem.makeDirectories, FileSystem.makeDirectoriesWith]
    split <;> rfl
  | write path text => rfl

def openBlob : Declaration where
  name := "open"
  overloadName := none
  arguments := [⟨"self", .name "Tensor", none⟩, ⟨"source", .ptr (.name "Blob"), none⟩]
  returns := []
  mode := .native
  methodOf := ["namespace"]
  isFactoryMethod := none

def blobJob : Job := ⟨"out", .standard, .standard, [openBlob]⟩

theorem fails_at_first_unmapped_blob :
    Configuration.ofFile "Codegen.toml" (.error .notFound) = .ok (blobJob.configuration, []) ∧
    (∀ d ∈ blobJob.declarations, d.Parsed ∧ d.Identified) ∧
    flatSystem.NoneFails (allCalls (plan blobJob).files) [] ∧
    (∃ e files, ((run flatSystem blobJob).run []).1.2 = .error e ∧ ReportsFirst blobJob e files ∧
      ((run flatSystem blobJob).run []).2 = flatSystem.after (allCalls files) []) ∧
    FileTree.system.NoneFails (allCalls (plan blobJob).files) outdatedTree ∧
    ∃ e files, ((run FileTree.system blobJob).run outdatedTree).1.2 = .error e ∧
      ReportsFirst blobJob e files ∧
      Overwritten files outdatedTree ((run FileTree.system blobJob).run outdatedTree).2 := by
  have hdeclarations : ∀ d ∈ blobJob.declarations, d.Parsed ∧ d.Identified := by decide
  have hunmapped : blobJob.HasUnmapped :=
    ⟨openBlob, List.mem_cons_self, .inr (.inr (by decide)), by decide⟩
  have hflat := flatSystem_noneFails (allCalls (plan blobJob).files) []
  have htree : FileTree.system.NoneFails (allCalls (plan blobJob).files) outdatedTree :=
    noneFails_of_roomIn rfl outdatedTree_roomIn
  have hconfiguration : Configuration.ofFile "Codegen.toml" (.error .notFound) =
    .ok (blobJob.configuration, []) := rfl
  obtain ⟨hany, htrees⟩ := fails_at_first_unmapped blobJob hconfiguration hdeclarations
  obtain ⟨e, he⟩ := (hany flatSystem [] hflat).1.mpr hunmapped
  obtain ⟨files, hfirst, hstate⟩ := (hany flatSystem [] hflat).2 e he
  obtain ⟨e', he'⟩ := (hany FileTree.system outdatedTree htree).1.mpr hunmapped
  obtain ⟨files', hfirst', hoverwritten⟩ := htrees outdatedTree htree e' he'
  exact ⟨hconfiguration, hdeclarations, hflat, ⟨e, files, he, hfirst, hstate⟩, htree, e', files',
    he', hfirst', hoverwritten⟩

end NativeBindings.Generation
