import Toolwright.Archive.Synchronizer

/-!
References that are on their way at once. They are begun in order, no more of them at a time than
the synchronizer allows. An answer may come for any of them and the text of any of them may be
written next; outcomes leave in order, so that one that is settled keeps its place until those
before it have left. A `Course` is what has become of the references of a tool so far, and `follow`
takes it through a list of events.
-/

namespace Toolwright.Synchronizer

inductive Stage where
  /-- Its document is waited for. -/
  | asked
  /-- Its text is known and not yet written. -/
  | unwritten (text : String)
  | settled (status : ReferenceStatus)

structure Job where
  index : Nat
  reference : Reference
  stage : Stage

structure Course where
  tree : Files.Tree
  /-- Outcomes that have left. -/
  outcomes : List ReferenceOutcome
  /-- References that have been begun, the first one first. -/
  underWay : List Job
  waiting : List Reference

/-- What can happen next; a place is counted among the references that are under way. -/
inductive Event where
  | begin
  /-- The document comes, or its time is up. -/
  | answer (place : Nat)
  | write (place : Nat)
  | leave
  deriving DecidableEq, Repr

def Job.settle (j : Job) (status : ReferenceStatus) : Job := { j with stage := .settled status }

def Job.fail (j : Job) (tool : Tool) (f : Failure) : Job :=
  j.settle (.failed (.reference j.index tool.definitionFileName f))

/-- A reference whose answer comes while the files are `t`. -/
def answered (s : Synchronizer) (tool : Tool) (t : Files.Tree) (j : Job) : Job :=
  match s.textFor t j.reference with
  | .ok text => { j with stage := .unwritten text }
  | .error f => j.fail tool f

/-- A reference whose text is written, and the files after that. -/
def written (tool : Tool) (t : Files.Tree) (j : Job) (text : String) : Job × Files.Tree :=
  match t.writeText (tool.referencePath j.index) text with
  | .ok t => (j.settle (.archived text.utf8ByteSize), t)
  | .error fault => (j.fail tool (.io (.fault fault)), t)

/-- What becomes of a course by an event, when the event can happen. -/
def step (s : Synchronizer) (tool : Tool) (c : Course) : Event → Option Course
  | .begin =>
    match c.waiting with
    | [] => none
    | r :: rest =>
      if c.underWay.length < s.maxConcurrent then
        some { c with
          underWay := c.underWay ++ [⟨c.outcomes.length + c.underWay.length, r, .asked⟩]
          waiting := rest }
      else none
  | .answer place =>
    match c.underWay[place]? with
    | some ⟨i, r, .asked⟩ =>
      some { c with underWay := c.underWay.set place (s.answered tool c.tree ⟨i, r, .asked⟩) }
    | _ => none
  | .write place =>
    match c.underWay[place]? with
    | some ⟨i, r, .unwritten text⟩ =>
      let (job, tree) := written tool c.tree ⟨i, r, .unwritten text⟩ text
      some { c with tree := tree, underWay := c.underWay.set place job }
    | _ => none
  | .leave =>
    match c.underWay with
    | ⟨i, r, .settled status⟩ :: rest =>
      some { c with
        outcomes := c.outcomes ++ [⟨i, r, tool.referencePath i, status⟩]
        underWay := rest }
    | _ => none

/-- Follow events one after the other; none of them may be impossible. -/
def follow (s : Synchronizer) (tool : Tool) (c : Course) : List Event → Option Course
  | [] => some c
  | e :: rest => (s.step tool c e).bind fun next => follow s tool next rest

/-- The course of a tool before anything has happened. -/
def Course.new (tool : Tool) (t : Files.Tree) : Course := ⟨t, [], [], tool.references⟩

def Course.isDone (c : Course) : Bool := c.underWay.isEmpty && c.waiting.isEmpty

end Toolwright.Synchronizer
