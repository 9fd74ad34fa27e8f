import Toolwright.CommandLine.Basic

/-!
What is told about the command line: the help, the version, and why a command line is refused.
-/

namespace Toolwright.CommandLine

def programName : String := "toolgen"

def generalUsage : String := "Usage: " ++ programName ++ " [OPTIONS] " ++ Argument.directory.text

def usageWith (given : List Argument) : String :=
  let named := (given.filter (· ≠ .directory)).eraseDups
  "Usage: " ++ " ".intercalate (programName :: (named.map (·.text) ++ [Argument.directory.text]))

/-- All that a run can be asked for with, as one choice. -/
def choice : String :=
  let name := fun (a : Argument) => if a.long?.isNone then a.value?.getD "" else a.text
  "<" ++ "|".intercalate (Argument.ofRun.map name) ++ ">"

/-- The way to use the program with arguments that may not be all of them: as soon as one of a run
is known, any of these may follow. -/
def usageAmong (known : List Argument) (more : List Argument) : String :=
  let all := (known ++ more).eraseDups
  if all = [] then generalUsage
  else if known = [] then usageWith more
  else
    let other := all.filter (!Argument.ofRun.contains ·)
    "Usage: " ++ " ".intercalate (programName :: (other.map (·.text) ++ [choice]))

def version : String := programName ++ " 0.1.0\n"

def helpName (a : Argument) : String :=
  match a.long?, a.short? with
  | none, _ => a.text
  | some _, some c => String.ofList ['-', c, ',', ' '] ++ a.text
  | some _, none => "    " ++ a.text

/-- Lines of the help: names, and what they are for in one column. -/
def helpLines (arguments : List Argument) : String :=
  let width := ((arguments.map fun a => (helpName a).length).foldl max 0) + 2
  String.join (arguments.map fun a =>
    let name := helpName a
    "  " ++ name ++ String.ofList (List.replicate (width - name.length) ' ') ++ a.purpose ++ "\n")

def help : String :=
  "Generate typed command-line wrappers from declarative JSON tool descriptions\n\n" ++
    generalUsage ++ "\n\nArguments:\n" ++ helpLines [.directory] ++ "\nOptions:\n" ++
    helpLines Argument.named

def tip (text : String) : String := "\n\n  tip: " ++ text

def asValue (name : String) : String :=
  tip ("to pass '" ++ name ++ "' as a value, use '-- " ++ name ++ "'")

def unexpected (name : String) : String := "unexpected argument '" ++ name ++ "' found"

namespace Stop

def problem : Stop → String
  | .help => ""
  | .version => ""
  | .missing _ =>
    "the following required arguments were not provided:\n  " ++ Argument.directory.text
  | .conflict a b _ =>
    "the argument '" ++ a.text ++ "' cannot be used with '" ++ b.text ++ "'"
  | .repeated a => "the argument '" ++ a.text ++ "' cannot be used multiple times"
  | .noValue a => "a value is required for '" ++ a.text ++ "' but none was supplied"
  | .unneeded a value _ =>
    "unexpected value '" ++ value ++ "' for '" ++ a.text ++ "' found; no more were expected"
  | .unknownLong name none _ => unexpected ("--" ++ name) ++ asValue ("--" ++ name)
  | .unknownLong name (some a) _ =>
    unexpected ("--" ++ name) ++
      tip ("a similar argument exists: '--" ++ (a.long?.getD "") ++ "'")
  | .unknownShort name => unexpected name ++ asValue name
  | .surplus text => unexpected text

def usage? : Stop → Option String
  | .help => none
  | .version => none
  | .missing given => some (usageWith given)
  | .conflict _ _ given => some (usageWith given)
  | .repeated _ => some generalUsage
  | .noValue _ => none
  | .unneeded a _ given => some (usageAmong given [a])
  | .unknownLong _ alike given =>
    some <|
      match alike with
      | none => usageAmong given []
      | some a => if Argument.ofRun.contains a then usageAmong (given ++ [a]) []
        else usageAmong given [a]
  | .unknownShort _ => some generalUsage
  | .surplus _ => some generalUsage

def refusal (s : Stop) : String :=
  "error: " ++ s.problem ++ (s.usage?.elim "" ("\n\n" ++ ·)) ++
    "\n\nFor more information, try '--help'.\n"

end Stop

end Toolwright.CommandLine
