import Toolwright.Duration
import Toolwright.Files.Fault
import Toolwright.Files.Path
import Toolwright.Json.Fault
import Toolwright.Selector.Extract

/-!
Everything that can end the work on a description or on one of its references. A `Failure` says
what was being done, a `Reason` why it did not work; `Failure.message` is the one place where both
are worded.
-/

namespace Toolwright

/-- What a description can get wrong that its form cannot express. -/
inductive Defect where
  | blankName
  /-- The name is no name of a directory. -/
  | unusableName (name : String)
  | repeatedProperty (name owner : String)
  | repeatedValue (value enumeration : String)
  deriving DecidableEq, Repr

def Defect.message : Defect → String
  | .blankName => "tool Name must not be empty"
  | .unusableName name => "tool Name '" ++ name ++ "' is not usable as a directory name"
  | .repeatedProperty name owner => "duplicate property '" ++ name ++ "' in " ++ owner
  | .repeatedValue value enumeration =>
    "duplicate value '" ++ value ++ "' in enumeration " ++ enumeration

inductive Reason where
  /-- In the words of a caller. -/
  | words (text : String)
  | fault (f : Files.Fault)
  | json (e : Json.Error)
  | defect (d : Defect)
  | cannotCreate (directory : Path) (f : Files.Fault)
  | cannotWrite (file : Path) (f : Files.Fault)
  /-- Another description of the run has the same tool name. -/
  | nameTaken (name : String) (owner : Path)
  /-- Two renderings of one tool differ. -/
  | unstable
  | selector (p : Selector.Problem)
  | notDirectory (p : Path)
  /-- A pattern of paths has brackets at that position that are not closed. -/
  | unclosedBracket (position : Nat)
  | unreachable (url : String)
  | timedOut (limit : Duration)
  /-- The address cannot be read. -/
  | badUrl
  /-- The address asks for something that cannot be fetched; it is given in its normal form. -/
  | unsupportedUrl (url : String)
  /-- No connection to the address, given in its normal form. -/
  | noConnection (url : String)
  /-- The name that is sent with requests cannot be sent. -/
  | badAgent

def Reason.message : Reason → String
  | .words text => text
  | .fault f => f.message
  | .json e => e.message
  | .defect d => d.message
  | .cannotCreate directory f => "cannot create " ++ directory.text ++ ": " ++ f.message
  | .cannotWrite file f => "cannot write " ++ file.text ++ ": " ++ f.message
  | .nameTaken name owner => "tool name '" ++ name ++ "' already used by " ++ owner.text
  | .unstable => "renderer produced different output for the same model"
  | .selector p => p.message
  | .notDirectory p => "not a directory: " ++ p.text
  | .unclosedBracket position =>
    "Pattern syntax error near position " ++ toString position ++ ": invalid range pattern"
  | .unreachable url => "unreachable: " ++ url
  | .timedOut limit => "timed out after " ++ limit.text
  | .badUrl => "builder error"
  | .unsupportedUrl url => "builder error for url (" ++ url ++ ")"
  | .noConnection url => "error sending request for url (" ++ url ++ ")"
  | .badAgent => "Failed to create HTTP client: builder error"

inductive Failure where
  | load (file : Path) (reason : Reason)
  | render (file : String) (reason : Reason)
  /-- One reference of a description could not be archived. -/
  | reference (index : Nat) (file : String) (cause : Failure)
  | serialize (file : Path) (reason : Reason)
  | selector (text : String) (reason : Reason)
  | http (reason : Reason)
  | io (reason : Reason)
  | json (reason : Reason)
  /-- In the words of a caller. -/
  | words (text : String)

namespace Failure

def message : Failure → String
  | .load file reason => "Failed to load " ++ file.displayName ++ ": " ++ reason.message
  | .render file reason => "Failed to render " ++ file ++ ": " ++ reason.message
  | .reference index file cause =>
    "Couldn't update reference #" ++ toString index ++ " for " ++ file ++ ": " ++ message cause
  | .serialize file reason => "Failed to write " ++ file.displayName ++ ": " ++ reason.message
  | .selector text reason => "Invalid selector '" ++ text ++ "': " ++ reason.message
  | .http reason => "HTTP error: " ++ reason.message
  | .io reason => "IO error: " ++ reason.message
  | .json reason => "JSON error: " ++ reason.message
  | .words text => text

/-- What failed and, where a fault was taken over as it is, that fault. -/
def chain (f : Failure) : List String :=
  f.message ::
    match f with
    | .io reason => [reason.message]
    | .json reason => [reason.message]
    | _ => []

/-- A failed reference is passed over; everything else ends the work on the file. -/
def isRecoverable : Failure → Bool
  | .reference _ _ _ => true
  | _ => false

end Failure

end Toolwright
