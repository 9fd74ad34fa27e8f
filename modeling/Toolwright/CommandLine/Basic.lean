import Toolwright.CommandLine.Argument
import Toolwright.Files.Path
import Toolwright.Text.Similarity

/-!
Command lines and how they are read. Named arguments may stand on either side of the directory, and
behind `--` nothing is a name. No argument is given twice. A value in an argument of its own is
looked at only when the next argument is understood, so a fault of that one may come first.
-/

namespace Toolwright

structure CommandLine where
  directory : Path
  config : Option Path
  verbose : Bool
  outDir : Option Path
  dryRun : Bool
  failFast : Bool
  continueOnError : Bool
  noReferences : Bool

namespace CommandLine

/-- What was said about stopping at a failure, if anything was. -/
def stops? (c : CommandLine) : Option Bool :=
  if c.failFast then some true else if c.continueOnError then some false else none

inductive Stop where
  | help
  | version
  /-- The directory is missing; what else was given. -/
  | missing (given : List Argument)
  | conflict (a b : Argument) (given : List Argument)
  | repeated (a : Argument)
  | noValue (a : Argument)
  /-- A value for an argument that takes none. -/
  | unneeded (a : Argument) (value : String) (given : List Argument)
  /-- A long name that is not known, and the known one most alike to it. -/
  | unknownLong (name : String) (alike : Option Argument) (given : List Argument)
  | unknownShort (name : String)
  /-- A second directory. -/
  | surplus (text : String)
  deriving Repr

/-- A value that was read and not looked at, none as long as it is waited for. -/
structure Pending where
  argument : Argument
  value : Option String

structure Progress where
  /-- Arguments with their values, in order. -/
  given : List (Argument × String)
  pending : Option Pending
  /-- Behind `--`. -/
  bare : Bool
  /-- Whether there is a directory. -/
  placed : Bool

namespace Progress

def start : Progress := ⟨[], none, false, false⟩

def arguments (p : Progress) : List Argument := p.given.map (·.1)

def add (p : Progress) (a : Argument) (value : String) : Except Stop Progress :=
  if p.arguments.contains a then .error (.repeated a)
  else if a.takesValue && value.isEmpty then .error (.noValue a)
  else .ok { p with given := p.given ++ [(a, value)] }

def settle (p : Progress) : Except Stop Progress :=
  match p.pending with
  | none => .ok p
  | some ⟨a, none⟩ => .error (.noValue a)
  | some ⟨a, some value⟩ => { p with pending := none }.add a value

/-- Take an argument that has no value of its own, or one right behind it. -/
def take (p : Progress) (a : Argument) (value : String) : Except Stop Progress := do
  let p ← p.settle
  match a with
  | .help => .error .help
  | .version => .error .version
  | _ => p.add a value

def wait (p : Progress) (a : Argument) (value : Option String) : Except Stop Progress := do
  let p ← p.settle
  .ok { p with pending := some ⟨a, value⟩ }

/-- Whether the next argument is the value of the last one, unless it is a name. -/
def waits (p : Progress) : Bool := !p.bare && p.pending.any (·.value.isNone)

/-- The arguments that are known to be there when something is not understood. -/
def known (p : Progress) : List Argument :=
  match p.settle with
  | .ok p => p.arguments
  | .error (.noValue a) => if p.waits then p.arguments else p.arguments ++ [a]
  | .error _ => p.arguments

def takeLong (p : Progress) (text : List Char) : Except Stop Progress :=
  let name := String.ofList (text.takeWhile (· != '='))
  let value := (text.dropWhile (· != '=')).tail?.map String.ofList
  match Argument.ofLong? name with
  | none =>
    let alike := Text.mostAlike? name.toList (Argument.named.filterMap (·.long?))
    .error (.unknownLong name (alike.bind Argument.ofLong?) p.known)
  | some a =>
    match value with
    | none => if a.takesValue then p.wait a none else p.take a ""
    | some value => if a.takesValue then p.take a value else .error (.unneeded a value p.arguments)

/-- Short names in a row; behind one that takes a value, what is left is the value. -/
def takeShort : List Char → Progress → Except Stop Progress
  | [], p => .ok p
  | c :: rest, p =>
    match Argument.ofShort? c with
    | none => .error (.unknownShort (String.ofList ['-', c]))
    | some a =>
      if a.takesValue then
        match rest with
        | [] => p.wait a none
        | '=' :: value => p.take a (String.ofList value)
        | value => p.take a (String.ofList value)
      else do
        let p ← p.take a ""
        takeShort rest p

def takePlain (p : Progress) (text : String) : Except Stop Progress :=
  if p.waits then
    .ok { p with pending := p.pending.map fun w => { w with value := some text } }
  else if p.placed then .error (.surplus text)
  else do
    let p ← p.wait .directory (some text)
    .ok { p with placed := true }

def step (p : Progress) (text : String) : Except Stop Progress :=
  if p.bare then p.takePlain text
  else
    match text.toList with
    | ['-', '-'] => .ok { p with bare := true }
    | '-' :: '-' :: name => p.takeLong name
    | ['-'] => p.takePlain text
    | '-' :: names => takeShort names p
    | _ => p.takePlain text

def steps : List String → Progress → Except Stop Progress
  | [], p => p.settle
  | text :: rest, p => do
    let p ← p.step text
    steps rest p

def value? (p : Progress) (a : Argument) : Option String := p.given.lookup a

def has (p : Progress) (a : Argument) : Bool := p.arguments.contains a

/-- The command line that was given. Stopping and not stopping exclude each other. -/
def finish (p : Progress) : Except Stop CommandLine :=
  let clash := p.arguments.filter fun a => a = .failFast ∨ a = .continueOnError
  match clash, p.value? .directory with
  | a :: b :: _, _ => .error (.conflict a b (p.arguments.filter (· ≠ b)))
  | _, none => .error (.missing p.arguments)
  | _, some directory =>
    .ok {
      directory := ⟨directory⟩
      config := (p.value? .config).map Path.mk
      verbose := p.has .verbose
      outDir := (p.value? .outDir).map Path.mk
      dryRun := p.has .dryRun
      failFast := p.has .failFast
      continueOnError := p.has .continueOnError
      noReferences := p.has .noReferences }

end Progress

/-- Read the arguments behind the name of the program. -/
def read (arguments : List String) : Except Stop CommandLine := do
  let p ← Progress.steps arguments .start
  p.finish

end CommandLine

end Toolwright
