import Mathlib.Data.List.Basic
import NativeBindings.Generation.Execute
import NativeBindings.Proofs.Files.System

set_option autoImplicit false
set_option relaxedAutoImplicit false

/-!
Which files plans write, and which calls of the file system that takes. A generation whose calls do
not fail leaves the state that these calls lead to, and ends as its plan does.
-/

namespace NativeBindings

def Step.file? : Step → Option OutputFile
  | .log _ => none
  | .write file => some file

def Step.files (steps : List Step) : List OutputFile := steps.filterMap Step.file?

def Step.line? : Step → Option LogLine
  | .log line => some line
  | .write _ => none

def Step.lines (steps : List Step) : List LogLine := steps.filterMap Step.line?

namespace Plan

def files (p : Plan) : List OutputFile := Step.files p.steps

def lines (p : Plan) : List LogLine := Step.lines p.steps

/-- The report of a plan that was carried out to its end. -/
def report (p : Plan) : Report :=
  ⟨p.files.map fun file => (file.path, file.functions), p.skipped⟩

theorem andThen_of_none {p : Plan} (h : p.failure = none) (q : Plan) :
    (p.andThen q).failure = q.failure ∧ (p.andThen q).files = p.files ++ q.files := by
  simp [andThen, h, files, Step.files]

theorem andThen_of_some {p q : Plan} {f : RenderFailure} (h : p.failure = some f) :
    p.andThen q = p := by
  simp [andThen, h]

theorem sequence_of_none {ps : List Plan} (h : ∀ p ∈ ps, p.failure = none) :
    (sequence ps).failure = none ∧ (sequence ps).files = ps.flatMap files := by
  induction ps with
  | nil => exact ⟨rfl, rfl⟩
  | cons p rest ih =>
    obtain ⟨hfailure, hfiles⟩ := ih fun q hq => h q (List.mem_cons_of_mem _ hq)
    obtain ⟨hthen, hthenFiles⟩ :=
      andThen_of_none (h p List.mem_cons_self) (sequence rest)
    exact ⟨hthen.trans hfailure, by rw [sequence, hthenFiles, hfiles, List.flatMap_cons]⟩

theorem sequence_of_some {before : List Plan} {p : Plan} {f : RenderFailure}
    (h : ∀ q ∈ before, q.failure = none) (hp : p.failure = some f) (after : List Plan) :
    (sequence (before ++ p :: after)).failure = some f ∧
      (sequence (before ++ p :: after)).files = before.flatMap files ++ p.files := by
  induction before with
  | nil =>
    rw [List.nil_append, sequence, andThen_of_some hp]
    exact ⟨hp, rfl⟩
  | cons q before ih =>
    obtain ⟨hfailure, hfiles⟩ := ih fun r hr => h r (List.mem_cons_of_mem _ hr)
    obtain ⟨hthen, hthenFiles⟩ := andThen_of_none (h q List.mem_cons_self)
      (sequence (before ++ p :: after))
    rw [List.cons_append, sequence, hthen, hthenFiles, hfiles, List.flatMap_cons,
      List.append_assoc]
    exact ⟨hfailure, rfl⟩

end Plan

namespace FileSystem

inductive Call where
  | makeDirectories (path : String)
  | write (path text : String)

variable {σ : Type} (fs : FileSystem (StateM σ))

def perform : Call → StateM σ (Except FileFault Unit)
  | .makeDirectories path => fs.makeDirectories path
  | .write path text => fs.write path text

/-- The state that calls lead to, one after the other. -/
def after : List Call → σ → σ
  | [], st => st
  | call :: rest, st => after rest ((fs.perform call).run st).2

/-- No call fails where those before it were made. -/
def NoneFails : List Call → σ → Prop
  | [], _ => True
  | call :: rest, st =>
    ((fs.perform call).run st).1 = .ok () ∧ NoneFails rest ((fs.perform call).run st).2

@[simp] theorem after_append (calls more : List Call) (st : σ) :
    fs.after (calls ++ more) st = fs.after more (fs.after calls st) := by
  induction calls generalizing st with
  | nil => rfl
  | cons call rest ih => exact ih _

@[simp] theorem noneFails_append {calls more : List Call} {st : σ} :
    fs.NoneFails (calls ++ more) st ↔
      fs.NoneFails calls st ∧ fs.NoneFails more (fs.after calls st) := by
  induction calls generalizing st with
  | nil => simp [NoneFails, after]
  | cons call rest ih => simp [NoneFails, after, ih, and_assoc]

theorem noneFails_of_forall (h : ∀ call st, ((fs.perform call).run st).1 = .ok ())
    (calls : List Call) (st : σ) : fs.NoneFails calls st := by
  induction calls generalizing st with
  | nil => trivial
  | cons call rest ih => exact ⟨h call st, ih _⟩

end FileSystem

/-- The calls that put a file to its place: its directory is made, then its text is written. -/
def OutputFile.calls (file : OutputFile) : List FileSystem.Call :=
  [.makeDirectories ((Path.parent? file.path).getD ""), .write file.path file.text]

/-- The calls that put files to their places, one after the other. -/
def OutputFile.allCalls (files : List OutputFile) : List FileSystem.Call := files.flatMap calls

namespace Generation

open OutputFile (allCalls)

variable {σ : Type} (fs : FileSystem (StateM σ)) {file : OutputFile} {st : σ}

variable {fs} in
theorem exists_of_noneFails (h : fs.NoneFails file.calls st) :
    ∃ mid, (fs.makeDirectories ((Path.parent? file.path).getD "")).run st = (.ok (), mid) ∧
      (fs.write file.path file.text).run mid = (.ok (), fs.after file.calls st) :=
  ⟨_, Prod.ext h.1 rfl, Prod.ext h.2.1 rfl⟩

variable {fs} in
theorem noneFails_of {mid next : σ}
    (hmake : (fs.makeDirectories ((Path.parent? file.path).getD "")).run st = (.ok (), mid))
    (hwrite : (fs.write file.path file.text).run mid = (.ok (), next)) :
    fs.NoneFails file.calls st ∧ fs.after file.calls st = next := by
  have hmid : ((fs.perform (.makeDirectories ((Path.parent? file.path).getD ""))).run st).2 = mid :=
    congrArg Prod.snd hmake
  refine ⟨⟨congrArg Prod.fst hmake, ?_, trivial⟩, ?_⟩
  · rw [hmid]
    exact congrArg Prod.fst hwrite
  · rw [OutputFile.calls, FileSystem.after, FileSystem.after, hmid]
    exact congrArg Prod.snd hwrite

variable {fs} in
private theorem run_writeFile (h : fs.NoneFails file.calls st) :
    (writeFile fs file).run st = (.ok (), fs.after file.calls st) := by
  obtain ⟨mid, hmake, hwrite⟩ := exists_of_noneFails h
  rw [writeFile, run_bind_of hmake]
  dsimp only
  rw [run_bind_of hwrite]
  rfl

variable {fs} in
private theorem noneFails_of_writeFile (h : ((writeFile fs file).run st).1 = .ok ()) :
    fs.NoneFails file.calls st := by
  rcases hmade : (fs.makeDirectories ((Path.parent? file.path).getD "")).run st with ⟨made, mid⟩
  cases made with
  | error f =>
    rw [writeFile, run_bind_of hmade] at h
    cases h
  | ok =>
    rcases hwritten : (fs.write file.path file.text).run mid with ⟨written, next⟩
    cases written with
    | error f =>
      rw [writeFile, run_bind_of hmade] at h
      dsimp only at h
      rw [run_bind_of hwritten] at h
      cases h
    | ok => exact (noneFails_of hmade hwritten).1

private theorem runSteps_write {rest : List Step} (h : fs.NoneFails file.calls st) :
    (runSteps fs (.write file :: rest)).run st =
      let (p, next) := (runSteps fs rest).run (fs.after file.calls st)
      ({ p with written := (file.path, file.functions) :: p.written }, next) := by
  rw [runSteps, run_bind_of (run_writeFile h)]
  rfl

private theorem runSteps_log (line : LogLine) (rest : List Step) (st : σ) :
    (runSteps fs (.log line :: rest)).run st =
      let (p, next) := (runSteps fs rest).run st
      ({ p with told := line :: p.told }, next) :=
  rfl

private theorem allCalls_files_write (file : OutputFile) (rest : List Step) :
    allCalls (Step.files (.write file :: rest)) = file.calls ++ allCalls (Step.files rest) :=
  List.flatMap_cons

theorem runSteps_of_noneFails {steps : List Step}
    (h : fs.NoneFails (allCalls (Step.files steps)) st) :
    (runSteps fs steps).run st =
      (⟨Step.lines steps, (Step.files steps).map fun file => (file.path, file.functions), none⟩,
        fs.after (allCalls (Step.files steps)) st) := by
  induction steps generalizing st with
  | nil => rfl
  | cons step rest ih =>
    cases step with
    | log line =>
      rw [runSteps_log, ih h]
      rfl
    | write file =>
      rw [allCalls_files_write, FileSystem.noneFails_append] at h
      rw [runSteps_write fs h.1, ih h.2, allCalls_files_write, FileSystem.after_append]
      rfl

theorem noneFails_of_runSteps {steps : List Step}
    (h : ((runSteps fs steps).run st).1.failure = none) :
    fs.NoneFails (allCalls (Step.files steps)) st := by
  induction steps generalizing st with
  | nil => trivial
  | cons step rest ih =>
    cases step with
    | log line =>
      rw [runSteps_log] at h
      exact ih h
    | write file =>
      rw [allCalls_files_write, FileSystem.noneFails_append]
      rcases hfile : (writeFile fs file).run st with ⟨result, next⟩
      cases result with
      | error f =>
        rw [runSteps, run_bind_of hfile] at h
        cases h
      | ok =>
        have hwritten : fs.NoneFails file.calls st :=
          noneFails_of_writeFile (congrArg Prod.fst hfile)
        rw [runSteps_write fs hwritten] at h
        exact ⟨hwritten, ih h⟩

theorem run_eq (job : Job) (st : σ) :
    (run fs job).run st =
      let (p, next) := (runSteps fs (plan job).steps).run st
      ((p.told, outcome (plan job) p), next) :=
  rfl

theorem run_of_noneFails {job : Job} (h : fs.NoneFails (allCalls (plan job).files) st) :
    ((run fs job).run st).2 = fs.after (allCalls (plan job).files) st ∧
      ∀ e, ((run fs job).run st).1.2 = .error e ↔
        ∃ f, (plan job).failure = some f ∧ e = .render f := by
  have hsteps := runSteps_of_noneFails fs h
  rw [run_eq, hsteps]
  refine ⟨rfl, fun e => ?_⟩
  dsimp only [outcome]
  cases (plan job).failure with
  | none => simp
  | some f => simp [eq_comm]

theorem run_eq_ok_iff {job : Job} {next : σ} {told : List LogLine} {report : Report} :
    (run fs job).run st = ((told, .ok report), next) ↔
      (plan job).failure = none ∧ fs.NoneFails (allCalls (plan job).files) st ∧
        told = (plan job).lines ∧ report = (plan job).report ∧
        next = fs.after (allCalls (plan job).files) st := by
  constructor
  · intro h
    rw [run_eq] at h
    rcases hsteps : (runSteps fs (plan job).steps).run st with ⟨p, last⟩
    rw [hsteps] at h
    obtain ⟨hresult, rfl⟩ := Prod.mk.inj h
    obtain ⟨rfl, houtcome⟩ := Prod.mk.inj hresult
    cases hdone : p.failure with
    | some f => simp [outcome, hdone] at houtcome
    | none =>
      have hfree : fs.NoneFails (allCalls (plan job).files) st := by
        apply noneFails_of_runSteps
        rw [hsteps]
        exact hdone
      have hend := hsteps.symm.trans (runSteps_of_noneFails fs hfree)
      obtain ⟨rfl, rfl⟩ := Prod.mk.inj hend
      cases hplan : (plan job).failure with
      | some f => simp [outcome, hplan] at houtcome
      | none =>
        simp only [outcome, hplan, Except.ok.injEq] at houtcome
        exact ⟨rfl, hfree, rfl, houtcome.symm, rfl⟩
  · rintro ⟨hplan, hfree, rfl, rfl, rfl⟩
    have hsteps := runSteps_of_noneFails fs hfree
    rw [run_eq, hsteps]
    simp [outcome, hplan, Plan.lines, Plan.report, Plan.files]

end Generation

end NativeBindings
