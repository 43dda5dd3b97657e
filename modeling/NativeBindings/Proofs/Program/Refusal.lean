import NativeBindings.Program
import NativeBindings.Proofs.Configuration.Beside
import NativeBindings.Proofs.Diagnostic.Excerpt
import NativeBindings.Proofs.Generation.Overwrite
import NativeBindings.Proofs.Workspace.Located

set_option autoImplicit false
set_option relaxedAutoImplicit false

/-!
What a run of the program needs before it writes. Main statement: unless the arguments, the
configuration file, the specification and all its types can be read, the run leaves the tree of
files as it was and fails; it crashes instead just if the place of the specification's fault cuts a
character. Any other run ends as the generation of what was decoded does, and ends well just if that
has written its nine files.
-/

namespace NativeBindings.Program

open Generation (Job plan Overwritten)
open Specification (Lists)

/-- Two arguments, none of which starts as a flag does. -/
def WellUsed (arguments : List String) : Prop :=
  arguments.length = 2 ∧ ∀ s ∈ arguments, ¬ ['-', '-'] <+: s.toList

/-- No file at a path, or one whose text is malformed, states a configuration. -/
def Unstated (t : FileTree) (path : String) : Prop :=
  ¬ t.Has path ∨
    ∃ source reason, t.read path = .ok source ∧ Configuration.ofText source = .error reason

/-- The configuration that the file at a path states; the standard one where it states none. -/
inductive Configured (t : FileTree) (path : String) : Configuration → Prop
  | stated {source : String} {c : Configuration} :
      t.read path = .ok source → Configuration.ofText source = .ok c → Configured t path c
  | unstated : Unstated t path → Configured t path .standard

/-- The file at a path lists declarations, and all their types can be read. -/
def Specified (t : FileTree) (path : String) (declarations : List Declaration) : Prop :=
  ∃ source found, t.read path = .ok source ∧ Lists (.ofPath path) source found ∧
    List.Forall₂ Listing.ReadAs found declarations

/-- Everything that a generation starts from was decoded. -/
structure Decoded (t : FileTree) (arguments : List String) (job : Job) : Prop where
  wellUsed : WellUsed arguments
  table : job.table = .standard
  files : ∃ specification, arguments = [job.directory, specification] ∧
    Configured t (Configuration.pathBeside specification) job.configuration ∧
    Specified t specification job.declarations

/-- Why the file at a path gives no declarations. -/
inductive Unspecified (t : FileTree) (path : String) : Prop
  | unread {fault : FileFault} : t.read path = .error fault → Unspecified t path
  | form {source : String} :
      t.read path = .ok source → (∀ found, ¬ Lists (.ofPath path) source found) →
      Unspecified t path
  /-- A type of some declaration, admitted by a category or not, cannot be read. -/
  | type {source : String} {found : List Listing} {l : Listing} {text : TypeText} :
      t.read path = .ok source → Lists (.ofPath path) source found → l ∈ found →
      text ∈ l.typeTexts → text.refused = true → Unspecified t path

/-- Why a run of the program does not come to its generation. -/
inductive Refused (t : FileTree) (arguments : List String) : Prop
  | usage : ¬ WellUsed arguments → Refused t arguments
  /-- The configuration file is there and cannot be read. -/
  | configuration {directory specification : String} {fault : FileFault} :
      arguments = [directory, specification] →
      t.Has (Configuration.pathBeside specification) →
      t.read (Configuration.pathBeside specification) = .error fault → Refused t arguments
  | specification {directory specification : String} :
      arguments = [directory, specification] → Unspecified t specification →
      Refused t arguments

/-- The place of the fault of a specification begins or ends inside a character of its text. -/
def Undrawable (t : FileTree) (path : String) : Prop :=
  ∃ source d span, t.read path = .ok source ∧
    Specification.listings (.ofPath path) source path 0 = .error d ∧ d.span = some span ∧
    Excerpt.Cuts span source

/-- A run comes to a fault of the specification that cannot be drawn. -/
structure Crashes (t : FileTree) (arguments : List String) : Prop where
  wellUsed : WellUsed arguments
  files : ∃ directory specification, arguments = [directory, specification] ∧
    (t.Has (Configuration.pathBeside specification) →
      ∀ fault, t.read (Configuration.pathBeside specification) ≠ .error fault) ∧
    Undrawable t specification

/-- A generation has come to its end, with nine files written to places of their own. -/
structure Completed (job : Job) (t u : FileTree) : Prop where
  run : ∃ told report, (Generation.run FileTree.system job).run t = ((told, .ok report), u) ∧
    report.written = (plan job).files.map fun file => (file.path, file.functions)
  nine : (plan job).files.length = 9
  overwritten : Overwritten (plan job).files t u

variable {t u : FileTree} {arguments : List String} {job : Job}

private theorem lists_unique {format : Format} {source : String} {found others : List Listing}
    (h : Lists format source found) (h' : Lists format source others) : found = others := by
  cases format with
  | toml => exact Except.ok.inj (Eq.trans (Eq.symm h) h')
  | json => exact Except.ok.inj (Eq.trans (Eq.symm h) h')

theorem exists_specified {path : String} (h : ¬ Unspecified t path) :
    ∃ declarations, Specified t path declarations := by
  cases hread : t.read path with
  | error fault => exact absurd (.unread hread) h
  | ok source =>
    by_cases hform : ∃ found, Lists (.ofPath path) source found
    · obtain ⟨found, hfound⟩ := hform
      refine ⟨_, source, found, hread, hfound, Specification.forall₂_readAs path ?_⟩
      intro l hl text htext
      by_contra hrefused
      exact h (.type hread hfound hl htext (by simpa using hrefused))
    · exact absurd (.form hread (not_exists.mp hform)) h

theorem Specified.not_unspecified {path : String} {declarations : List Declaration}
    (h : Specified t path declarations) : ¬ Unspecified t path := by
  obtain ⟨source, found, hread, hfound, hdeclarations⟩ := h
  intro hnone
  cases hnone with
  | unread hfault => simp [hread] at hfault
  | form hagain hform =>
    obtain rfl := Except.ok.inj (hread.symm.trans hagain)
    exact hform found hfound
  | type hagain hothers hl htext hrefused =>
    obtain rfl := Except.ok.inj (hread.symm.trans hagain)
    obtain rfl := lists_unique hfound hothers
    obtain ⟨d, -, hd⟩ := Traversal.exists_of_forall₂_of_mem hdeclarations hl
    simp [Specification.refused_eq_false_of_readAs hd _ htext] at hrefused

private theorem Undrawable.unspecified {path : String} (h : Undrawable t path) :
    Unspecified t path := by
  obtain ⟨source, d, span, hread, hlistings, -, -⟩ := h
  refine .form hread fun found hfound => ?_
  rw [Specification.listings_of_lists path 0 hfound] at hlistings
  cases hlistings

theorem Crashes.refused (h : Crashes t arguments) : Refused t arguments := by
  obtain ⟨-, directory, specification, harguments, -, hundrawable⟩ := h
  exact .specification harguments hundrawable.unspecified

theorem exists_configured {path : String}
    (h : t.Has path → ∀ fault, t.read path ≠ .error fault) : ∃ c, Configured t path c := by
  by_cases hthere : t.Has path
  · cases hread : t.read path with
    | error fault => exact absurd hread (h hthere fault)
    | ok source =>
      cases htext : Configuration.ofText source with
      | ok c => exact ⟨c, .stated hread htext⟩
      | error reason => exact ⟨.standard, .unstated (.inr ⟨source, reason, hread, htext⟩)⟩
  · exact ⟨.standard, .unstated (.inl hthere)⟩

private theorem Configured.ne_error {path : String} {c : Configuration} (h : Configured t path c)
    (hthere : t.Has path) (fault : FileFault) : t.read path ≠ .error fault := by
  cases h with
  | stated hread => simp [hread]
  | unstated hunstated =>
    obtain hmissing | ⟨source, reason, hread, -⟩ := hunstated
    · exact absurd hthere hmissing
    · simp [hread]

theorem not_refused_iff : ¬ Refused t arguments ↔ ∃ job, Decoded t arguments job := by
  constructor
  · intro h
    have hused : WellUsed arguments := by
      by_contra hused
      exact h (.usage hused)
    obtain ⟨directory, specification, harguments⟩ := List.length_eq_two.mp hused.1
    obtain ⟨c, hconfigured⟩ := exists_configured fun hthere fault hfault =>
      h (.configuration harguments hthere hfault)
    obtain ⟨declarations, hspecified⟩ := exists_specified fun hnone =>
      h (.specification harguments hnone)
    exact ⟨⟨directory, c, .standard, declarations⟩, hused, rfl, specification, harguments,
      hconfigured, hspecified⟩
  · rintro ⟨job, hused, -, specification, harguments, hconfigured, hspecified⟩ hrefused
    cases hrefused with
    | usage hnot => exact hnot hused
    | configuration hother hthere hfault =>
      obtain ⟨-, rfl⟩ : _ ∧ _ := by simpa using harguments.symm.trans hother
      exact hconfigured.ne_error hthere _ hfault
    | specification hother hnone =>
      obtain ⟨-, rfl⟩ : _ ∧ _ := by simpa using harguments.symm.trans hother
      exact hspecified.not_unspecified hnone

section Run

variable (environment : Console.Environment)

private theorem readArguments_of_not_wellUsed (h : ¬ WellUsed arguments) :
    ∃ fault, readArguments arguments = .error fault := by
  unfold readArguments
  cases hflag : arguments.find? isFlag with
  | some flag => exact ⟨_, rfl⟩
  | none =>
    dsimp only
    split
    · rename_i directory specification
      refine absurd ⟨rfl, ?_⟩ h
      intro s hs hprefix
      have hnot := List.find?_eq_none.mp hflag s hs
      exact hnot (List.isPrefixOf_iff_prefix.mpr hprefix)
    · exact ⟨_, rfl⟩

private theorem readArguments_of_wellUsed {directory specification : String}
    (h : WellUsed [directory, specification]) :
    readArguments [directory, specification] = .ok ⟨directory, specification⟩ := by
  have hflags : [directory, specification].find? isFlag = none := by
    rw [List.find?_eq_none]
    intro s hs hflag
    exact h.2 s hs (List.isPrefixOf_iff_prefix.mp hflag)
  rw [readArguments, hflags]

/-- The run ends in a way that is given and leaves the tree as it was. -/
def EndsAt (t : FileTree) (ending : Ending) (x : StateM FileTree Outcome) : Prop :=
  (x.run t).1.ending = ending ∧ (x.run t).2 = t

theorem EndsAt.exitCode {ending : Ending} {x : StateM FileTree Outcome} (h : EndsAt t ending x) :
    (x.run t).1.exitCode = ending.exitCode :=
  congrArg Ending.exitCode h.1

private theorem endsAt_of_not_wellUsed (h : ¬ WellUsed arguments) :
    EndsAt t .failed (run FileTree.system environment arguments) := by
  obtain ⟨fault, hfault⟩ := readArguments_of_not_wellUsed h
  rw [run, hfault]
  exact ⟨rfl, rfl⟩

private theorem run_of_wellUsed {directory specification : String}
    (h : WellUsed [directory, specification]) :
    run FileTree.system environment [directory, specification] =
      runWith FileTree.system environment.coloured ⟨directory, specification⟩ := by
  rw [run, readArguments_of_wellUsed h]

end Run

section Files

variable {coloured : Bool} {a : Arguments}

private theorem endsAt_of_configuration {f : FileFailure}
    (h : Configuration.ofFile (Configuration.pathBeside a.specificationFile)
      (t.read (Configuration.pathBeside a.specificationFile)) = .error f) :
    EndsAt t .failed (runWith FileTree.system coloured a) := by
  have hread : (FileTree.system.read (Configuration.pathBeside a.specificationFile)).run t =
      (t.read (Configuration.pathBeside a.specificationFile), t) := rfl
  rw [EndsAt, runWith, run_bind_of hread, h]
  exact ⟨rfl, rfl⟩

private theorem endsAt_of_unread {directory specification : String} {fault : FileFault}
    (hthere : t.Has (Configuration.pathBeside specification))
    (h : t.read (Configuration.pathBeside specification) = .error fault) :
    EndsAt t .failed (runWith FileTree.system coloured ⟨directory, specification⟩) := by
  apply endsAt_of_configuration (f := ⟨.read (Configuration.pathBeside specification), fault⟩)
  rw [h, Configuration.ofFile]
  rintro rfl
  exact absurd h (FileTree.ne_notFound_of_has hthere)

private theorem cutsOne_iff_of_listings {path source : String} {d : Diagnostic}
    (h : Specification.listings (.ofPath path) source path 0 = .error d) :
    Excerpt.CutsOne [⟨path, source⟩] d ↔ ∃ span, d.span = some span ∧ Excerpt.Cuts span source := by
  have hpoints := Specification.pointsInto_of_listings h
  constructor
  · rintro ⟨span, file, hlocated, hcuts⟩
    obtain ⟨span', hspan, hfile⟩ := Option.bind_eq_some_iff.mp hlocated
    obtain ⟨file', hfile', hpair⟩ := Option.bind_eq_some_iff.mp hfile
    obtain ⟨rfl, rfl⟩ := Prod.mk.inj (Option.some.inj hpair)
    rw [(hpoints.span span' hspan).1] at hfile'
    obtain rfl := Option.some.inj hfile'
    exact ⟨span', hspan, hcuts⟩
  · rintro ⟨span, hspan, hcuts⟩
    have hfile := (hpoints.span span hspan).1
    refine ⟨span, ⟨path, source⟩, ?_, hcuts⟩
    rw [Excerpt.located, hspan]
    simp [Sources.get?, hfile]

/-- The reports on a specification are complete unless the place of its fault cuts a character. -/
theorem reports_complete_iff (t : FileTree) (path : String) :
    (Excerpt.reportAll (Workspace.empty.load path (t.read path)).2.sources
      (Workspace.empty.load path (t.read path)).2.sink).complete = true ↔ ¬ Undrawable t path := by
  rw [Excerpt.reportAll_complete_iff]
  cases hread : t.read path with
  | error fault => simp [Workspace.load, Workspace.empty, Undrawable, hread]
  | ok source =>
    have hload : (Workspace.empty.load path (.ok source)).2 =
        ⟨[⟨path, source⟩], (Specification.decode (.ofPath path) source path 0 []).2⟩ := rfl
    rw [hload]
    cases hlistings : Specification.listings (.ofPath path) source path 0 with
    | error d =>
      have hsink : (Specification.decode (.ofPath path) source path 0 []).2 = [d] := by
        simp [Specification.decode, hlistings, Specification.failWith]
      rw [hsink, List.forall_mem_singleton, cutsOne_iff_of_listings hlistings]
      simp [Undrawable, hread, hlistings]
    | ok found =>
      have hsink : (Specification.decode (.ofPath path) source path 0 []).2 =
          (Specification.resolveAll path found []).2 := by
        rw [Specification.decode, hlistings]
      obtain ⟨added, hadded, hspans⟩ := Specification.exists_resolveAll_added path found []
      rw [hsink, hadded]
      refine iff_of_true ?_ ?_
      · rintro d hd ⟨span, file, hlocated, -⟩
        obtain ⟨span', hspan, -⟩ := Option.bind_eq_some_iff.mp hlocated
        rw [(hspans d hd).2] at hspan
        cases hspan
      · rintro ⟨source', d, span, hagain, hfails, -⟩
        obtain rfl := Except.ok.inj (hread.symm.trans hagain)
        rw [hlistings] at hfails
        cases hfails

/-- Under a configuration that is read, the run goes on from the loaded specification, unless its
fault cannot be drawn. -/
theorem runWith_of_configuration (coloured : Bool) {c : Configuration} {remarks : List LogLine}
    (h : Configuration.ofFile (Configuration.pathBeside a.specificationFile)
      (t.read (Configuration.pathBeside a.specificationFile)) = .ok (c, remarks)) :
    (Undrawable t a.specificationFile →
      EndsAt t .crashed (runWith FileTree.system coloured a)) ∧
    (¬ Undrawable t a.specificationFile →
      ∃ before, (runWith FileTree.system coloured a).run t =
        match (Workspace.empty.load a.specificationFile (t.read a.specificationFile)).1 with
        | .error f => (failed coloured f.message before, t)
        | .ok declarations =>
          (generate FileTree.system coloured a c declarations before).run t) := by
  have hconfiguration :
      (FileTree.system.read (Configuration.pathBeside a.specificationFile)).run t =
        (t.read (Configuration.pathBeside a.specificationFile), t) := rfl
  have hspecification : (FileTree.system.read a.specificationFile).run t =
      (t.read a.specificationFile, t) := rfl
  have hcomplete := reports_complete_iff t a.specificationFile
  rcases hload : Workspace.empty.load a.specificationFile (t.read a.specificationFile) with
    ⟨loaded, workspace⟩
  rw [hload] at hcomplete
  rw [EndsAt, runWith, run_bind_of hconfiguration, h]
  dsimp only
  rw [run_bind_of hspecification, hload]
  dsimp only
  constructor
  · intro hundrawable
    rw [if_neg fun hshown => hcomplete.mp hshown hundrawable]
    exact ⟨rfl, rfl⟩
  · intro hdrawable
    rw [if_pos (hcomplete.mpr hdrawable)]
    refine ⟨remarks.map Remark.log ++
      [.text (Excerpt.reportAll workspace.sources workspace.sink).text], ?_⟩
    cases loaded <;> rfl

private theorem endsAt_of_load {f : LoadFailure}
    (h : (Workspace.empty.load a.specificationFile (t.read a.specificationFile)).1 = .error f)
    (hdrawable : ¬ Undrawable t a.specificationFile) :
    EndsAt t .failed (runWith FileTree.system coloured a) := by
  cases hconfiguration : Configuration.ofFile (Configuration.pathBeside a.specificationFile)
      (t.read (Configuration.pathBeside a.specificationFile)) with
  | error fault => exact endsAt_of_configuration hconfiguration
  | ok found =>
    obtain ⟨before, hrun⟩ := (runWith_of_configuration coloured hconfiguration).2 hdrawable
    rw [h] at hrun
    rw [EndsAt, hrun]
    exact ⟨rfl, rfl⟩

private theorem load_eq_ok_iff {path : String} {declarations : List Declaration} :
    (Workspace.empty.load path (t.read path)).1 = .ok declarations ↔
      Specified t path declarations := by
  cases hread : t.read path with
  | error fault =>
    have hload : (Workspace.empty.load path (.error fault)).1 =
        .error (.file ⟨.read path, fault⟩) := rfl
    simp [hload, Specified, hread]
  | ok source =>
    have hload : (Workspace.empty.load path (.ok source)).1 =
        (Specification.decode (.ofPath path) source path 0 []).1.mapError .specification := rfl
    have hmapped : (Workspace.empty.load path (.ok source)).1 = .ok declarations ↔
        (Specification.decode (.ofPath path) source path 0 []).1 = .ok declarations := by
      rw [hload]
      cases (Specification.decode (.ofPath path) source path 0 []).1 <;> simp [Except.mapError]
    rw [hmapped, Specification.decode_nil_eq_ok_iff]
    simp [Specified, hread]

private theorem ofFile_of_configured {path : String} {c : Configuration} (h : Configured t path c)
    (hplace : t.read path ≠ .error .notDirectory) :
    ∃ remarks, Configuration.ofFile path (t.read path) = .ok (c, remarks) := by
  cases h with
  | stated hread htext =>
    refine ⟨[], ?_⟩
    rw [hread, Configuration.ofFile, htext]
  | unstated h =>
    obtain hmissing | ⟨source, reason, hread, htext⟩ := h
    · have hfault := (FileTree.read_of_not_has hmissing).resolve_right hplace
      refine ⟨[], ?_⟩
      rw [hfault, Configuration.ofFile]
    · refine ⟨[.configurationIgnored path reason], ?_⟩
      rw [hread, Configuration.ofFile, htext]

private theorem standard_of_unstated {path : String} {c : Configuration} (h : Configured t path c)
    (hunstated : Unstated t path) : c = .standard := by
  cases h with
  | unstated => rfl
  | @stated source c hread htext =>
    obtain hmissing | ⟨other, reason, hother, hfault⟩ := hunstated
    · have hnone := FileTree.read_of_not_has hmissing
      simp [hread] at hnone
    · obtain rfl := Except.ok.inj (hread.symm.trans hother)
      simp [htext] at hfault

end Files

private theorem run_writtenLines (coloured : Bool) (written : List (String × Nat)) (t : FileTree) :
    ((writtenLines FileTree.system coloured written).run t).2 = t := by
  induction written with
  | nil => rfl
  | cons file rest ih =>
    obtain ⟨path, functions⟩ := file
    obtain ⟨bytes, hbytes⟩ : ∃ bytes, (FileTree.system.size path).run t = (bytes, t) := by
      cases hcontent : t.contentAt path with
      | ok content => exact ⟨content.size, by simp [FileTree.system, StateT.run, hcontent]⟩
      | error f => exact ⟨0, by simp [FileTree.system, StateT.run, hcontent]⟩
    rcases hrest : (writtenLines FileTree.system coloured rest).run t with ⟨lines, u⟩
    rw [hrest] at ih
    rw [writtenLines, run_bind_of hbytes, run_bind_of hrest]
    exact ih

private theorem run_generate (coloured : Bool) (a : Arguments) (c : Configuration)
    (declarations : List Declaration) (before : List Remark) (t : FileTree) :
    ∃ told result u, (Generation.run FileTree.system
        ⟨a.outputDirectory, c, .standard, declarations⟩).run t = ((told, result), u) ∧
      ((generate FileTree.system coloured a c declarations before).run t).2 = u ∧
      (((generate FileTree.system coloured a c declarations before).run t).1.exitCode = 0 ↔
        ∃ report, result = .ok report) := by
  rcases hrun : (Generation.run FileTree.system
      ⟨a.outputDirectory, c, .standard, declarations⟩).run t with ⟨⟨told, result⟩, u⟩
  refine ⟨told, result, u, rfl, ?_⟩
  rw [generate, run_bind_of hrun]
  cases result with
  | error f => exact ⟨rfl, iff_of_false (show ¬ Ending.failed.exitCode = 0 by decide) (by simp)⟩
  | ok report =>
    dsimp only
    rcases hlines : (writtenLines FileTree.system coloured report.written).run u with ⟨lines, v⟩
    have hsame := run_writtenLines coloured report.written u
    rw [hlines] at hsame
    rw [run_bind_of hlines]
    exact ⟨hsame, iff_of_true (show Ending.completed.exitCode = 0 from rfl) ⟨report, rfl⟩⟩

private theorem endsAt_of_crashes (environment : Console.Environment) (h : Crashes t arguments) :
    EndsAt t .crashed (run FileTree.system environment arguments) := by
  obtain ⟨hused, directory, specification, rfl, hreadable, hundrawable⟩ := h
  obtain ⟨source, -, -, hread, -⟩ := id hundrawable
  obtain ⟨c, hconfigured⟩ := exists_configured hreadable
  obtain ⟨remarks, hconfiguration⟩ :=
    ofFile_of_configured hconfigured (Configuration.read_pathBeside_ne_notDirectory hread)
  rw [run_of_wellUsed environment hused]
  exact (runWith_of_configuration (a := ⟨directory, specification⟩) environment.coloured
    hconfiguration).1 hundrawable

theorem endsAt_of_refused (environment : Console.Environment) (h : Refused t arguments)
    (hcrash : ¬ Crashes t arguments) :
    EndsAt t .failed (run FileTree.system environment arguments) := by
  by_cases hused : WellUsed arguments
  · cases h with
    | usage hnot => exact absurd hused hnot
    | @configuration directory specification fault harguments hthere hfault =>
      subst harguments
      rw [run_of_wellUsed environment hused]
      exact endsAt_of_unread hthere hfault
    | @specification directory specification harguments hnone =>
      subst harguments
      rw [run_of_wellUsed environment hused]
      by_cases hundrawable : Undrawable t specification
      · have hunread : ¬ (t.Has (Configuration.pathBeside specification) →
            ∀ fault, t.read (Configuration.pathBeside specification) ≠ .error fault) :=
          fun hreadable =>
            hcrash ⟨hused, directory, specification, rfl, hreadable, hundrawable⟩
        push Not at hunread
        obtain ⟨hthere, fault, hfault⟩ := hunread
        exact endsAt_of_unread hthere hfault
      · cases hloaded : (Workspace.empty.load specification (t.read specification)).1 with
        | ok declarations =>
          exact absurd hnone (load_eq_ok_iff.mp hloaded).not_unspecified
        | error f =>
          exact endsAt_of_load (a := ⟨directory, specification⟩) hloaded hundrawable
  · exact endsAt_of_not_wellUsed environment hused

/-- The generation of what was decoded decides on the end of the run and on the tree after it. -/
theorem run_of_decoded (environment : Console.Environment) (h : Decoded t arguments job) :
    ∃ told result u, (Generation.run FileTree.system job).run t = ((told, result), u) ∧
      ((run FileTree.system environment arguments).run t).2 = u ∧
      (((run FileTree.system environment arguments).run t).1.exitCode = 0 ↔
        ∃ report, result = .ok report) := by
  obtain ⟨directory, configuration, table, declarations⟩ := job
  obtain ⟨hused, rfl, specification, rfl, hconfigured, hspecified⟩ := h
  obtain ⟨source, -, hread, -⟩ := id hspecified
  obtain ⟨remarks, hconfiguration⟩ :=
    ofFile_of_configured hconfigured (Configuration.read_pathBeside_ne_notDirectory hread)
  have hdrawable : ¬ Undrawable t specification :=
    fun hundrawable => hspecified.not_unspecified hundrawable.unspecified
  obtain ⟨before, hrun⟩ := (runWith_of_configuration (a := ⟨directory, specification⟩)
    environment.coloured hconfiguration).2 hdrawable
  rw [load_eq_ok_iff.mpr hspecified] at hrun
  rw [run_of_wellUsed environment hused, hrun]
  exact run_generate environment.coloured ⟨directory, specification⟩ configuration declarations
    before t

private theorem completed_of_run (h : Decoded t arguments job) {told : List LogLine}
    {report : Report}
    (hrun : (Generation.run FileTree.system job).run t = ((told, .ok report), u)) :
    Completed job t u := by
  obtain ⟨-, -, specification, -, hconfigured, source, -, hread, -⟩ := h
  obtain ⟨remarks, hconfiguration⟩ :=
    ofFile_of_configured hconfigured (Configuration.read_pathBeside_ne_notDirectory hread)
  have hwellFormed := Configuration.ofFile_wellFormed hconfiguration
  have hroot := Configuration.ofFile_moduleRoot_ne_nil hconfiguration
  obtain ⟨hplan, hfree, -, rfl, hend⟩ := (Generation.run_eq_ok_iff FileTree.system).mp hrun
  obtain ⟨lowered, hlowered⟩ := Generation.exists_lowered_of_plan hplan
  have hapart := Generation.plan_files_apart hwellFormed hroot hlowered
  obtain ⟨hchange, hholds⟩ := Generation.changed_of_allCalls hapart hfree hend.symm
  refine ⟨⟨told, _, hrun, rfl⟩, ?_, Generation.overwritten_of_changes hapart hchange hholds⟩
  rw [(Generation.plan_of_lowered hlowered).1, List.length_cons, List.length_map]
  rfl

/-- A run that is refused leaves the tree as it was; it fails, or it crashes because the fault of
the specification cannot be drawn. Any other run ends as the generation of what was decoded does,
under the standard configuration where the configuration file is missing or malformed. A run ends
well just if the generation of what was decoded has come to its end, with nine files written. -/
theorem decodes_before_writing (environment : Console.Environment) (arguments : List String)
    (t : FileTree) :
    (Refused t arguments →
      ((run FileTree.system environment arguments).run t).2 = t ∧
        (¬ Crashes t arguments →
          ((run FileTree.system environment arguments).run t).1.exitCode = 1)) ∧
    (Crashes t arguments → Refused t arguments ∧
      ((run FileTree.system environment arguments).run t).1.exitCode = 101) ∧
    (¬ Refused t arguments →
      ∃ job told result u, Decoded t arguments job ∧
        (Generation.run FileTree.system job).run t = ((told, result), u) ∧
        ((run FileTree.system environment arguments).run t).2 = u ∧
        (((run FileTree.system environment arguments).run t).1.exitCode = 0 ↔
          ∃ report, result = .ok report) ∧
        ∀ directory specification, arguments = [directory, specification] →
          Unstated t (Configuration.pathBeside specification) → job.configuration = .standard) ∧
    (((run FileTree.system environment arguments).run t).1.exitCode = 0 ↔
      ∃ job, Decoded t arguments job ∧
        Completed job t ((run FileTree.system environment arguments).run t).2) := by
  refine ⟨?_, ?_, ?_, ?_, ?_⟩
  · intro hrefused
    refine ⟨?_, fun hcrash => (endsAt_of_refused environment hrefused hcrash).exitCode⟩
    by_cases hcrash : Crashes t arguments
    · exact (endsAt_of_crashes environment hcrash).2
    · exact (endsAt_of_refused environment hrefused hcrash).2
  · intro hcrash
    exact ⟨hcrash.refused, (endsAt_of_crashes environment hcrash).exitCode⟩
  · intro hrefused
    obtain ⟨job, hdecoded⟩ := not_refused_iff.mp hrefused
    obtain ⟨told, result, u, hrun, htree, hcode⟩ := run_of_decoded environment hdecoded
    refine ⟨job, told, result, u, hdecoded, hrun, htree, hcode, ?_⟩
    intro directory specification harguments hunstated
    obtain ⟨-, -, other, hother, hconfigured, -⟩ := hdecoded
    obtain ⟨-, rfl⟩ : _ ∧ _ := by simpa using hother.symm.trans harguments
    exact standard_of_unstated hconfigured hunstated
  · intro hcode
    by_cases hrefused : Refused t arguments
    · by_cases hcrash : Crashes t arguments
      · rw [(endsAt_of_crashes environment hcrash).exitCode] at hcode
        exact absurd hcode (by decide)
      · rw [(endsAt_of_refused environment hrefused hcrash).exitCode] at hcode
        exact absurd hcode (by decide)
    · obtain ⟨job, hdecoded⟩ := not_refused_iff.mp hrefused
      obtain ⟨told, result, u, hrun, htree, hiff⟩ := run_of_decoded environment hdecoded
      obtain ⟨report, rfl⟩ := hiff.mp hcode
      rw [htree]
      exact ⟨job, hdecoded, completed_of_run hdecoded hrun⟩
  · rintro ⟨job, hdecoded, hcompleted⟩
    obtain ⟨told, result, u, hrun, htree, hiff⟩ := run_of_decoded environment hdecoded
    obtain ⟨told', report, hrun', -⟩ := hcompleted.run
    rw [hrun] at hrun'
    exact hiff.mpr ⟨report, (Prod.mk.inj (Prod.mk.inj hrun').1).2⟩

def specificationTree (text : String) : FileTree := ⟨[(["spec.json"], .file text.toUTF8)]⟩

private theorem read_specificationTree (text : String) :
    (specificationTree text).read "spec.json" = .ok text :=
  FileTree.read_of_file (l := ["spec.json"]) rfl rfl

-- The fault is told at the last character, two bytes long, by a span of one byte.
private theorem undrawable_cutText : Undrawable (specificationTree "[é") "spec.json" := by
  have hformat : Format.ofPath "spec.json" = .json := by decide +kernel
  have hspan : (Specification.listings .json "[é" "spec.json" 0).mapError (·.span) =
      .error (some ⟨0, 1, 2, by decide⟩) := by decide +kernel
  cases hlistings : Specification.listings .json "[é" "spec.json" 0 with
  | ok found =>
    rw [hlistings] at hspan
    cases hspan
  | error d =>
    rw [hlistings] at hspan
    refine ⟨"[é", d, _, read_specificationTree _, hformat ▸ hlistings, Except.error.inj hspan, ?_⟩
    rintro ⟨-, hstop⟩
    have hsome := (Excerpt.charsBefore_isSome_iff (by decide)).mpr hstop
    exact absurd hsome (by decide)

/-- A list that breaks off behind a character of two bytes is refused, but not with status one. -/
theorem status_one_fails_at_cut_character :
    ¬ (Refused (specificationTree "[é") ["out", "spec.json"] →
      ((run FileTree.system ⟨none, none, none⟩ ["out", "spec.json"]).run
        (specificationTree "[é")).1.exitCode = 1) := by
  intro hone
  have hcrash : Crashes (specificationTree "[é") ["out", "spec.json"] := by
    refine ⟨⟨rfl, by decide⟩, "out", "spec.json", rfl, fun hthere => ?_, undrawable_cutText⟩
    obtain ⟨l, node, hl, hnode⟩ := hthere
    obtain rfl := Except.ok.inj hl
    cases hnode
  have hcode := (endsAt_of_crashes ⟨none, none, none⟩ hcrash).exitCode
  rw [hone hcrash.refused] at hcode
  exact absurd hcode (by decide)

/-- The directories of an earlier generation, with a specification and a malformed configuration
file. -/
def preparedTree (text : String) : FileTree :=
  ⟨Generation.outdatedTree.nodes ++
    [(["spec.json"], .file text.toUTF8), (["Codegen.toml"], .file "=".toUTF8)]⟩

def negationText : String :=
  "[\x7b\"name\":\"neg\",\"mode\":\"native\",\"method_of\":[\"namespace\"]," ++
    "\"arguments\":[\x7b\"name\":\"self\",\"type\":\"Tensor\"\x7d]," ++
    "\"returns\":[\x7b\"type\":\"Tensor\"\x7d]\x7d]"

def negationListing : Listing :=
  ⟨"neg", none, [⟨"self", "Tensor", none⟩], [⟨none, "Tensor"⟩], .native, ["namespace"], none⟩

private theorem negationListing_readAs : negationListing.ReadAs (ModuleSpec.negated "self") := by
  have hparse : TypeExpr.parse "Tensor" = .ok (.name "Tensor") :=
    TypeExpr.parse_of_tokens [.name "Tensor"] (by decide +kernel) rfl (by decide)
  exact ⟨rfl, rfl, rfl, rfl, rfl, .cons ⟨rfl, rfl, hparse⟩ .nil, .cons hparse .nil⟩

private theorem lists_negation : Lists .json negationText [negationListing] :=
  Traversal.toOption_eq_some_iff.mp (by decide +kernel)

private theorem preparedTree_decoded :
    Decoded (preparedTree negationText) ["out", "spec.json"] Generation.negationJob := by
  have hused : WellUsed ["out", "spec.json"] := ⟨rfl, by decide⟩
  have hread : (preparedTree negationText).read "spec.json" = .ok negationText :=
    FileTree.read_of_file (l := ["spec.json"]) rfl rfl
  have hconfiguration : (preparedTree negationText).read "Codegen.toml" = .ok "=" :=
    FileTree.read_of_file (l := ["Codegen.toml"]) rfl rfl
  have hmalformed : (Configuration.ofText "=").isOk = false := by decide +kernel
  cases hreason : Configuration.ofText "=" with
  | ok c => simp [hreason, Except.isOk, Except.toBool] at hmalformed
  | error reason =>
    exact ⟨hused, rfl, "spec.json", rfl, .unstated (.inr ⟨"=", reason, hconfiguration, hreason⟩),
      negationText, _, hread, lists_negation, .cons negationListing_readAs .nil⟩

private theorem preparedTree_roomIn : Generation.RoomIn "out" (preparedTree negationText) := by
  unfold Generation.RoomIn
  decide +kernel

/-- A type that cannot be read, in a declaration that no category admits, keeps the tree as it is; a
malformed configuration file does not keep nine files from being written. -/
theorem decodes_before_writing_negation :
    Refused (specificationTree Specification.refusedText) ["out", "spec.json"] ∧
    ((run FileTree.system ⟨none, none, none⟩ ["out", "spec.json"]).run
      (specificationTree Specification.refusedText)).2 =
        specificationTree Specification.refusedText ∧
    ¬ Refused (preparedTree negationText) ["out", "spec.json"] ∧
    ((run FileTree.system ⟨none, none, none⟩ ["out", "spec.json"]).run
      (preparedTree negationText)).1.exitCode = 0 := by
  have hrefused :
      Refused (specificationTree Specification.refusedText) ["out", "spec.json"] := by
    refine .specification rfl (.type (read_specificationTree _) Specification.lists_refused
      List.mem_cons_self List.mem_cons_self ?_)
    decide +kernel
  have hnot : ¬ Refused (preparedTree negationText) ["out", "spec.json"] :=
    not_refused_iff.mpr ⟨_, preparedTree_decoded⟩
  have hrun := (Generation.run_eq_ok_iff FileTree.system).mpr ⟨Generation.plan_negationJob,
    Generation.noneFails_of_roomIn rfl preparedTree_roomIn, rfl, rfl, rfl⟩
  have hcompleted := completed_of_run preparedTree_decoded hrun
  obtain ⟨told, result, u, hrun', htree, -⟩ :=
    run_of_decoded ⟨none, none, none⟩ preparedTree_decoded
  obtain ⟨-, rfl⟩ := Prod.mk.inj (hrun.symm.trans hrun')
  rw [← htree] at hcompleted
  exact ⟨hrefused, ((decodes_before_writing ⟨none, none, none⟩ ["out", "spec.json"] _).1
    hrefused).1, hnot, (decodes_before_writing ⟨none, none, none⟩ ["out", "spec.json"]
      _).2.2.2.mpr ⟨_, preparedTree_decoded, hcompleted⟩⟩

end NativeBindings.Program
