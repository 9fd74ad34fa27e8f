import Toolwright.CommandLine.Message
import Toolwright.Run
import Toolwright.Settings.Load
import Toolwright.Settings.LogFilter

/-!
The program as a whole: a command line and files are turned into what is printed, the exit status
and the files afterwards. What the command line says wins over the settings.
-/

namespace Toolwright

inductive Print where
  | out (text : String)
  | err (text : String)
  deriving DecidableEq, Repr

namespace Print

def line (text : String) : Print := .out (text ++ "\n")

def complaint (text : String) : Print := .err (text ++ "\n")

def outText (ps : List Print) : String :=
  String.join (ps.filterMap fun | .out s => some s | .err _ => none)

def errText (ps : List Print) : String :=
  String.join (ps.filterMap fun | .err s => some s | .out _ => none)

end Print

namespace RunReport

def verb (r : RunReport) : String := if r.dryRun then "would write" else "wrote"

def generatedLine (verb : String) (g : GeneratedFile) : String :=
  "    " ++ verb ++ " " ++ g.path.text ++ " [" ++ toString g.bytes ++ " bytes, sha256 " ++
    (g.sha256.take 12).toString ++ "]"

def referenceLine (verb : String) (o : ReferenceOutcome) : String :=
  "    " ++ (if o.isFailed then "skipped" else verb) ++ " " ++ o.path.text

/-- What became of a description; a file beside it is told with both line counts. -/
def savedLine (r : RunReport) (s : Saving.Outcome) : String :=
  let note :=
    match s.target with
    | .description => ""
    | .sibling =>
      " (line count " ++ toString s.oldLines ++ " -> " ++ toString s.freshLines ++ ")"
  "    " ++ (if s.written || r.dryRun then r.verb else "unchanged") ++ " " ++ s.path.text ++ note

def fileLines (r : RunReport) (file : Path) (f : FileReport) : List String :=
  ("  " ++ f.tool ++ " (" ++ file.displayName ++ ")") :: generatedLine r.verb f.generated ::
    (f.references.map (referenceLine r.verb) ++ [r.savedLine f.saved])

def details (r : RunReport) : List String :=
  r.outcomes.flatMap fun o =>
    match o.result with
    | .ok f => r.fileLines o.file f
    | .error _ => []

def summary (r : RunReport) : String :=
  "Finished: " ++ toString r.succeeded ++ " succeeded, " ++ toString r.failed ++ " failed, " ++
    toString r.failedReferences ++ " reference failures"

def closing (r : RunReport) (verbose : Bool) : List String :=
  (if verbose || r.dryRun then r.details else []) ++ [r.summary] ++
    if r.stoppedEarly then ["Stopped at first failure (--fail-fast)"] else []

def prints (r : RunReport) (verbose : Bool) : RunEvent → List Print
  | .started file => [.line ("Processing " ++ file.displayName ++ "...")]
  | .referenceFailed f => [.complaint f.message]
  | .fileFailed file f => [.complaint ("Failed " ++ file.displayName ++ ": " ++ f.message)]
  | .finished _ => (r.closing verbose).map .line

end RunReport

structure Ending where
  prints : List Print
  status : Nat
  tree : Files.Tree

namespace Program

/-- The lines of a cause; all but the first are indented as far as the first is by its mark. -/
def indented (first more : String) (text : String) : String :=
  match Text.splitAt (· == '\n') text.toList with
  | [] => first
  | line :: rest =>
    first ++ String.ofList line ++ String.join (rest.map fun l =>
      "\n" ++ if l = [] then "" else more ++ String.ofList l)

def padded (n : Nat) : String :=
  let digits := toString n
  String.ofList (List.replicate (4 - digits.length) ' ') ++ digits

/-- What failed and why, from the outside in; several causes are numbered. -/
def errorText : List String → String
  | [] => ""
  | [message] => "Error: " ++ message
  | [message, cause] => "Error: " ++ message ++ "\n\nCaused by:\n" ++ indented "    " "    " cause
  | message :: causes =>
    "Error: " ++ message ++ "\n\nCaused by:" ++
      String.join (causes.mapIdx fun i cause =>
        "\n" ++ indented (padded i ++ ": ") "      " cause)

def failed (t : Files.Tree) (prints : List Print) (chain : List String) : Ending :=
  ⟨prints ++ [.err (errorText chain)], 1, t⟩

def runOptions (c : CommandLine) (s : Settings) : RunOptions where
  load := ⟨c.outDir.getD s.output.directory, s.output.provenanceBase, true⟩
  verifyDeterminism := s.output.verifyDeterminism
  references := s.references.enabled && !c.noReferences
  dryRun := c.dryRun || s.run.dryRun
  failFast := c.stops?.getD s.run.failFast

def pipeline (c : CommandLine) (s : Settings) : Pipeline where
  renderer := .wrapper
  synchronizer :=
    ((Synchronizer.standard .ofFiles).withTimeout s.references.fetchTimeout).withMaxConcurrent
      s.references.maxConcurrent
  options := runOptions c s

def notices (c : CommandLine) (o : RunOptions) : List Print :=
  (if c.verbose then [.line "Verbose mode enabled"] else []) ++
    if o.dryRun then [.line "Dry run: nothing will be written"] else []

def work (t : Files.Tree) (c : CommandLine) (s : Settings) : Ending :=
  let p := pipeline c s
  let notices := notices c p.options
  if !Fetcher.isSendable s.references.agent then
    failed t notices
      ("Application failed" :: "Failed to create reference fetcher" ::
        (Failure.http .badAgent).chain)
  else
    match p.run t c.directory with
    | .error f =>
      failed t notices
        ("Application failed" :: ("Failed to process " ++ c.directory.text) :: f.chain)
    | .ok (report, events, tree) =>
      ⟨notices ++ events.flatMap (report.prints c.verbose),
        if report.hasFailures then 1 else 0, tree⟩

/-- The filter for the log; it is passed over where it cannot be understood. -/
def logComplaints (c : CommandLine) (s : Settings) : List Print :=
  let filter := if c.verbose then "debug" else s.logLevel.getD "info"
  (LogFilter.complaints filter.toList).map fun complaint =>
    .complaint ("warning: " ++ complaint ++ ", ignoring it")

/-- Run the program with the arguments behind its name. -/
def run (t : Files.Tree) (userDirectory : Option Path) (arguments : List String) : Ending :=
  match CommandLine.read arguments with
  | .error .help => ⟨[.out CommandLine.help], 0, t⟩
  | .error .version => ⟨[.out CommandLine.version], 0, t⟩
  | .error stop => ⟨[.err stop.refusal], 2, t⟩
  | .ok c =>
    match Settings.load t userDirectory c.config with
    | .error f => failed t [] ("Failed to load configuration" :: f.chain)
    | .ok loaded =>
      let ending := work t c loaded.settings
      let before :=
        logComplaints c loaded.settings ++ loaded.skipped.map (Print.complaint ·.message)
      { ending with prints := before ++ ending.prints }

end Program

end Toolwright
