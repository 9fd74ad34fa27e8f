import Toolwright.Archive.Fetcher
import Toolwright.Description.Basic

/-!
Archiving the references of a tool next to what is generated for it. Each reference is fetched, its
selector is applied, and the text is written; a failure is kept as the outcome of that reference
and does not touch the others.
-/

namespace Toolwright

inductive ReferenceStatus where
  | archived (bytes : Nat)
  /-- It would be fetched, but nothing may be written. -/
  | planned
  | failed (f : Failure)

structure ReferenceOutcome where
  index : Nat
  reference : Reference
  path : Path
  status : ReferenceStatus

def ReferenceStatus.isFailed : ReferenceStatus → Bool
  | .failed _ => true
  | _ => false

def ReferenceOutcome.isFailed (o : ReferenceOutcome) : Bool := o.status.isFailed

def ReferenceOutcome.failure? (o : ReferenceOutcome) : Option Failure :=
  match o.status with
  | .failed f => some f
  | _ => none

structure Synchronizer where
  fetcher : Fetcher
  /-- How long an answer is waited for. -/
  timeout : Duration
  /-- How many references may be on their way at once; what comes out does not depend on it. -/
  maxConcurrent : Nat

namespace Synchronizer

/-- Waits half a minute and has four references on their way. -/
def standard (fetcher : Fetcher) : Synchronizer := ⟨fetcher, ⟨30000⟩, 4⟩

def withTimeout (s : Synchronizer) (timeout : Duration) : Synchronizer :=
  { s with timeout := timeout }

def withMaxConcurrent (s : Synchronizer) (n : Nat) : Synchronizer :=
  { s with maxConcurrent := max n 1 }

def fetch (s : Synchronizer) (t : Files.Tree) (url : String) : Except Failure String :=
  match s.fetcher.answer t url with
  | .document content => .ok (Text.decodeLossy content.toList)
  | .failed f => .error f
  | .silent => .error (.http (.timedOut s.timeout))

def select (selector? : Option String) (document : String) : Except Failure String :=
  match selector? with
  | none => .ok document
  | some selector =>
    match Selector.extract document.toList selector.toList with
    | .ok text => .ok text
    | .error p => .error (.selector selector (.selector p))

def textFor (s : Synchronizer) (t : Files.Tree) (r : Reference) : Except Failure String := do
  let document ← s.fetch t r.url
  select r.selector? document

/-- Write the text of a reference to its archive; the answer is the number of bytes. -/
def archive (s : Synchronizer) (t : Files.Tree) (r : Reference) (path : Path) :
    Except Failure Nat × Files.Tree :=
  match s.textFor t r with
  | .error f => (.error f, t)
  | .ok text =>
    match t.writeText path text with
    | .error fault => (.error (.io (.fault fault)), t)
    | .ok t => (.ok text.utf8ByteSize, t)

def archiveOne (s : Synchronizer) (tool : Tool) (t : Files.Tree) (index : Nat) (r : Reference) :
    ReferenceOutcome × Files.Tree :=
  let path := tool.referencePath index
  match s.archive t r path with
  | (.ok bytes, t) => (⟨index, r, path, .archived bytes⟩, t)
  | (.error f, t) =>
    (⟨index, r, path, .failed (.reference index tool.definitionFileName f)⟩, t)

/-- The outcomes for references, the first of which has the given index. -/
def archiveFrom (s : Synchronizer) (tool : Tool) (t : Files.Tree) (index : Nat) :
    List Reference → List ReferenceOutcome × Files.Tree
  | [] => ([], t)
  | r :: rest =>
    let (first, t) := s.archiveOne tool t index r
    let (others, t) := archiveFrom s tool t (index + 1) rest
    (first :: others, t)

def synchronize (s : Synchronizer) (tool : Tool) (t : Files.Tree) :
    List ReferenceOutcome × Files.Tree :=
  s.archiveFrom tool t 0 tool.references

def plan (tool : Tool) : List ReferenceOutcome :=
  tool.references.mapIdx fun index r => ⟨index, r, tool.referencePath index, .planned⟩

end Synchronizer

end Toolwright
