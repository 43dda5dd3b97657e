import NativeBindings.Configuration.Load
import NativeBindings.HostModule.Render
import NativeBindings.HostModule.Types
import NativeBindings.Signature.Collect

set_option autoImplicit false
set_option relaxedAutoImplicit false

/-!
The plan of a generation: which files are written one after the other, and where it fails. It does
not depend on what is in the file system.
-/

namespace NativeBindings

structure OutputFile where
  path : String
  text : String
  functions : Nat

inductive Step where
  | log (line : LogLine)
  | write (file : OutputFile)

structure RenderFailure where
  moduleName : String
  cause : UnmappedType

def RenderFailure.message (f : RenderFailure) : String :=
  "render `" ++ f.moduleName ++ "` failed: " ++ f.cause.message

/-- The steps of a generation; after the last of them it may fail. -/
structure Plan where
  steps : List Step
  failure : Option RenderFailure
  skipped : Nat

namespace Generation

structure Job where
  directory : String
  configuration : Configuration
  table : TypeTable
  declarations : List Declaration

variable (job : Job)

def Job.root : String := Path.join job.directory job.configuration.rootDirectory

def typeFile : OutputFile where
  path := Path.join job.root (job.configuration.typeModule ++ ".hs")
  text := (HostModule.TypeModule.ofTable job.configuration job.table).text
  functions := 0

def Job.spec (c : Category) (o : Ownership) : ModuleSpec := ⟨job.configuration, c, o⟩

def modulePath (c : Category) (o : Ownership) : String :=
  Path.join (Path.join job.root o.word) (c.moduleName ++ ".hs")

def stanzasBeforeFailure (c : Category) (table : TypeTable) : List Signature → List Stanza
  | [] => []
  | s :: rest =>
    match Stanza.ofSignature c table s with
    | .ok stanza => stanza :: stanzasBeforeFailure c table rest
    | .error _ => []

def skipLines (c : Category) (table : TypeTable) (signatures : List Signature) : List LogLine :=
  (repeated Stanza.hostName (stanzasBeforeFailure c table signatures)).map fun s =>
    .skipped s.hostName s.signature.text

def modulePlan (c : Category) (signatures : List Signature) (o : Ownership) : Plan :=
  let told := (skipLines c job.table signatures).map Step.log
  match (job.spec c o).render job.table signatures with
  | .error cause => ⟨told, some ⟨(job.spec c o).name, cause⟩, 0⟩
  | .ok m =>
    ⟨told ++ [.write ⟨modulePath job c o, m.text, m.stanzas.length⟩], none,
      if o = .unmanaged then m.skipped.length else 0⟩

end Generation

namespace Plan

def idle : Plan := ⟨[], none, 0⟩

def andThen (p q : Plan) : Plan :=
  if p.failure.isSome then p else ⟨p.steps ++ q.steps, q.failure, p.skipped + q.skipped⟩

def sequence : List Plan → Plan
  | [] => idle
  | p :: rest => p.andThen (sequence rest)

end Plan

namespace Generation

variable (job : Job)

def categoryPlan (c : Category) : Plan :=
  let signatures := c.signatures job.declarations
  Plan.andThen ⟨[.log (.collected c signatures.length)], none, 0⟩
    (.sequence (Ownership.all.map (modulePlan job c signatures)))

/-- The steps of a generation: the type module first, then the modules of each category. -/
def plan : Plan :=
  Plan.andThen ⟨[.write (typeFile job)], none, 0⟩
    (.sequence (Category.all.map (categoryPlan job)))

end Generation

end NativeBindings
