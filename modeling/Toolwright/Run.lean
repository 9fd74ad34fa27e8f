import Toolwright.Archive.Synchronizer
import Toolwright.Discovery
import Toolwright.Hash
import Toolwright.Loading
import Toolwright.Rendering
import Toolwright.Saving

/-!
Runs: the whole way for every description of a directory. Descriptions are worked on one after
another; each is loaded, claims the name of its tool, is rendered, has its references archived and
is written back. What happened to one does not end the work on the others unless that is asked for.
A run reports what came out and the events on the way, in order.
-/

namespace Toolwright

structure RunOptions where
  load : LoadOptions
  verifyDeterminism : Bool
  references : Bool
  /-- Write nothing; what would be written is computed all the same. -/
  dryRun : Bool
  /-- Stop at the first description that fails. -/
  failFast : Bool

def RunOptions.standard : RunOptions := ⟨.standard, false, true, false, false⟩

structure GeneratedFile where
  path : Path
  sha256 : String
  bytes : Nat
  deriving DecidableEq

/-- What came out for a description that was worked on to the end. -/
structure FileReport where
  tool : String
  generated : GeneratedFile
  references : List ReferenceOutcome
  saved : Saving.Outcome

def FileReport.failedReferences (r : FileReport) : Nat :=
  (r.references.filter (·.isFailed)).length

structure FileOutcome where
  file : Path
  result : Except Failure FileReport

def FileOutcome.isOk (o : FileOutcome) : Bool := o.result.toOption.isSome

structure RunReport where
  outcomes : List FileOutcome
  dryRun : Bool
  /-- A failure ended the run. -/
  stoppedEarly : Bool

namespace RunReport

def succeeded (r : RunReport) : Nat := (r.outcomes.filter (·.isOk)).length

def failed (r : RunReport) : Nat := r.outcomes.length - r.succeeded

def hasFailures (r : RunReport) : Bool := 0 < r.failed || r.stoppedEarly

def failedReferences (r : RunReport) : Nat :=
  r.outcomes.foldl
    (fun n o =>
      match o.result with
      | .ok report => n + report.failedReferences
      | .error _ => n) 0

end RunReport

inductive RunEvent where
  | started (file : Path)
  | referenceFailed (f : Failure)
  | fileFailed (file : Path) (f : Failure)
  | finished (outcomes : Nat)

structure Pipeline where
  renderer : Renderer
  synchronizer : Synchronizer
  options : RunOptions

structure RunState where
  tree : Files.Tree
  /-- How often the renderer was called. -/
  calls : Nat
  /-- The tool names in use, each with the description that claimed it. -/
  owners : List (String × Path)

namespace Pipeline

def loadOptions (p : Pipeline) : LoadOptions :=
  { p.options.load with createDirectories := !p.options.dryRun }

/-- Write the text of a generated file, unless nothing may be written. -/
def writeGenerated (p : Pipeline) (t : Files.Tree) (tool : Tool) (text : String) :
    Except Failure GeneratedFile × Files.Tree :=
  let path := p.renderer.generatedPath tool
  let generated : GeneratedFile := ⟨path, Hash.sha256Hex text.toUTF8, text.utf8ByteSize⟩
  if p.options.dryRun then (.ok generated, t)
  else
    match t.writeText path text with
    | .error fault =>
      (.error (.render tool.definitionFileName (.cannotWrite path fault)), t)
    | .ok t => (.ok generated, t)

def generate (p : Pipeline) (s : RunState) (tool : Tool) :
    Except Failure GeneratedFile × RunState :=
  match p.renderer.checked s.calls tool p.options.verifyDeterminism with
  | (.error f, calls) => (.error f, { s with calls := calls })
  | (.ok text, calls) =>
    let (result, tree) := p.writeGenerated s.tree tool text
    (result, { s with tree := tree, calls := calls })

/-- The references of a tool: not asked for, planned or archived. -/
def archiveReferences (p : Pipeline) (t : Files.Tree) (tool : Tool) :
    List ReferenceOutcome × Files.Tree :=
  if !p.options.references then ([], t)
  else if p.options.dryRun then (Synchronizer.plan tool, t)
  else p.synchronizer.synchronize tool t

def referenceEvents (outcomes : List ReferenceOutcome) : List RunEvent :=
  (outcomes.filterMap (·.failure?)).map .referenceFailed

/-- Work on a tool that has its name: the result and the failures of its references. -/
def produce (p : Pipeline) (s : RunState) (tool : Tool) :
    Except Failure FileReport × List RunEvent × RunState :=
  match p.generate s tool with
  | (.error f, s) => (.error f, [], s)
  | (.ok generated, s) =>
    let (references, tree) := p.archiveReferences s.tree tool
    let events := referenceEvents references
    match Saving.save tree tool p.options.dryRun with
    | (.error f, tree) => (.error f, events, { s with tree := tree })
    | (.ok saved, tree) =>
      (.ok ⟨tool.name, generated, references, saved⟩, events, { s with tree := tree })

def process (p : Pipeline) (s : RunState) (file : Path) :
    Except Failure FileReport × List RunEvent × RunState :=
  match Loading.load p.loadOptions s.tree file with
  | (.error f, tree) => (.error f, [], { s with tree := tree })
  | (.ok tool, tree) =>
    let s := { s with tree := tree }
    match s.owners.lookup tool.name with
    | some owner => (.error (.load file (.nameTaken tool.name owner)), [], s)
    | none => p.produce { s with owners := (tool.name, file) :: s.owners } tool

def fileEvents (file : Path) (result : Except Failure FileReport) (inner : List RunEvent) :
    List RunEvent :=
  .started file :: (inner ++
    match result with
    | .ok _ => []
    | .error f => [.fileFailed file f])

/-- What came out of some descriptions, the events on the way, and whether a failure ended it. -/
structure Course where
  outcomes : List FileOutcome
  events : List RunEvent
  stoppedEarly : Bool
  state : RunState

def processAll (p : Pipeline) (s : RunState) : List Path → Course
  | [] => ⟨[], [], false, s⟩
  | file :: rest =>
    let (result, inner, s) := p.process s file
    let outcome : FileOutcome := ⟨file, result⟩
    let events := fileEvents file result inner
    if !outcome.isOk && p.options.failFast then ⟨[outcome], events, true, s⟩
    else
      let later := processAll p s rest
      ⟨outcome :: later.outcomes, events ++ later.events, later.stoppedEarly, later.state⟩

/-- Work on listed descriptions: the report, the events and the files afterwards. -/
def runFiles (p : Pipeline) (t : Files.Tree) (files : List Path) :
    RunReport × List RunEvent × Files.Tree :=
  let course := p.processAll ⟨t, 0, []⟩ files
  (⟨course.outcomes, p.options.dryRun, course.stoppedEarly⟩,
    course.events ++ [.finished course.outcomes.length], course.state.tree)

def run (p : Pipeline) (t : Files.Tree) (dir : Path) :
    Except Failure (RunReport × List RunEvent × Files.Tree) :=
  match Discovery.discover t dir with
  | .error f => .error f
  | .ok files => .ok (p.runFiles t files)

end Pipeline

end Toolwright
