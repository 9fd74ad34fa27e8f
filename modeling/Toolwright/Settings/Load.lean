import Toolwright.Settings.Reader

/-!
Where settings come from. A file that is asked for has to be usable. Otherwise the first usable one
of the standard files counts, those in front of it are reported, and without any the defaults hold.
-/

namespace Toolwright.Settings

inductive LoadFault where
  | unreadable (file : Path) (f : Files.Fault)
  | unparsable (file : Path) (f : Fault)

namespace LoadFault

/-- What was being done, from the outside in, and at last why it did not work. -/
def chain : LoadFault → List String
  | .unreadable file f =>
    ["Failed to load config from " ++ file.text, "Failed to read config file", f.message]
  | .unparsable file f =>
    ["Failed to load config from " ++ file.text, "Failed to parse config file", f.message]

def message (f : LoadFault) : String := ": ".intercalate f.chain

end LoadFault

def ofFile (t : Files.Tree) (file : Path) : Except LoadFault Settings :=
  match t.readText file with
  | .error f => .error (.unreadable file f)
  | .ok text => (parse text.toList).mapError (.unparsable file)

structure Loaded where
  settings : Settings
  /-- The file they are from, none for the defaults. -/
  source : Option Path
  /-- Standard files that are there and were not usable. -/
  skipped : List LoadFault

def firstUsable (t : Files.Tree) : List Path → Loaded
  | [] => ⟨.standard, none, []⟩
  | file :: rest =>
    if t.contains file then
      match ofFile t file with
      | .ok settings => ⟨settings, some file, []⟩
      | .error f =>
        let later := firstUsable t rest
        { later with skipped := f :: later.skipped }
    else firstUsable t rest

/-- The standard files: one for the user, if there is a directory for such, and one here. -/
def standardFiles (userDirectory : Option Path) : List Path :=
  (userDirectory.map fun d => (d.join ⟨"toolgen"⟩).join ⟨"toolgen.yml"⟩).toList ++ [⟨"toolgen.yml"⟩]

def load (t : Files.Tree) (userDirectory : Option Path) (file : Option Path) :
    Except LoadFault Loaded :=
  match file with
  | some file => (ofFile t file).map fun s => ⟨s, some file, []⟩
  | none => .ok (firstUsable t (standardFiles userDirectory))

end Toolwright.Settings
