/-!
The arguments of the program: their names, what they take, and what they are for.
-/

namespace Toolwright.CommandLine

inductive Argument where
  | directory
  | config
  | verbose
  | outDir
  | dryRun
  | failFast
  | continueOnError
  | noReferences
  | help
  | version
  deriving DecidableEq, Repr

namespace Argument

/-- What a run is asked for with, in the order of the help. -/
def ofRun : List Argument :=
  [directory, config, verbose, outDir, dryRun, failFast, continueOnError, noReferences]

def named : List Argument := ofRun.drop 1 ++ [help, version]

def long? : Argument → Option String
  | directory => none
  | config => some "config"
  | verbose => some "verbose"
  | outDir => some "out-dir"
  | dryRun => some "dry-run"
  | failFast => some "fail-fast"
  | continueOnError => some "continue-on-error"
  | noReferences => some "no-references"
  | help => some "help"
  | version => some "version"

def short? : Argument → Option Char
  | config => some 'c'
  | verbose => some 'v'
  | outDir => some 'o'
  | help => some 'h'
  | version => some 'V'
  | _ => none

/-- What the value of an argument is called, if it takes one. -/
def value? : Argument → Option String
  | directory => some "DIRECTORY"
  | config => some "CONFIG"
  | outDir => some "OUT_DIR"
  | _ => none

def takesValue (a : Argument) : Bool := a.value?.isSome

def purpose : Argument → String
  | directory => "Directory holding the *.json tool descriptions"
  | config => "Optional config file path"
  | verbose => "Verbose output"
  | outDir => "Output root (default: current directory)"
  | dryRun => "Compute everything, write nothing, report the plan"
  | failFast => "Stop at the first failed file"
  | continueOnError => "Keep going after a failed file (default)"
  | noReferences => "Skip reference synchronization"
  | help => "Print help"
  | version => "Print version"

def text (a : Argument) : String :=
  let value := a.value?.map fun v => "<" ++ v ++ ">"
  " ".intercalate ((a.long?.map ("--" ++ ·)).toList ++ value.toList)

def ofLong? (name : String) : Option Argument := named.find? (·.long? == some name)

def ofShort? (name : Char) : Option Argument := named.find? (·.short? == some name)

end Argument

end Toolwright.CommandLine
