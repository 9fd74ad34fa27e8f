import Toolwright.Program

/-!
The command. What is below the working directory, the user's settings and what the arguments and
the settings name is read in; the program works on that; what it changed is written.
-/

namespace Toolwright.Main

/-- How deep directories are read. -/
def depthLimit : Nat := 64

/-- Add an entry of the disk and all that is below it; what cannot be read is left out. -/
def addBelow : Nat → Files.Tree → Files.Location → IO Files.Tree
  | 0, t, _ => pure t
  | depth + 1, t, at_ => do
    let text := "/" ++ "/".intercalate at_
    try
      let place ← IO.FS.realPath text
      if ← place.isDir then
        let children ← place.readDir
        children.foldlM (fun t child => addBelow depth t (at_ ++ [child.fileName]))
          (t.put at_ .directory)
      else
        let content ← IO.FS.readBinFile text
        pure (t.put at_ (.file content))
    catch _ => pure t

/-- Add what a path names, and the directories that lead to it. -/
def addPath (t : Files.Tree) (p : Path) : IO Files.Tree := do
  let names := p.steps.filterMap fun
    | .entry name => some name
    | _ => none
  if p.isAbsolute && !names.isEmpty then
    let above := (List.range names.length).map fun n => names.take n
    let t := above.foldl (fun t at_ => if (t.get? at_).isSome then t else t.put at_ .directory) t
    addBelow depthLimit t names
  else pure t

def write (at_ : Files.Location) (entry : Files.Entry) : IO Unit := do
  let text := "/" ++ "/".intercalate at_
  match entry with
  | .directory => IO.FS.createDirAll text
  | .file content => IO.FS.writeBinFile text content

def isSame (a b : Option Files.Entry) : Bool :=
  match a, b with
  | some (.file x), some (.file y) => x.data == y.data
  | some .directory, some .directory => true
  | none, none => true
  | _, _ => false

/-- Write what is new or different, directories before what is in them. -/
def writeChanges (before after : Files.Tree) : IO Unit := do
  let changed := after.entries.filter fun (at_, entry) => !isSame (before.get? at_) (some entry)
  for (at_, entry) in changed.mergeSort fun a b => a.1.length ≤ b.1.length do
    write at_ entry

def userDirectory : IO (Option Path) := do
  match ← IO.getEnv "XDG_CONFIG_HOME", ← IO.getEnv "HOME" with
  | some directory, home =>
    if directory.startsWith "/" then pure (some ⟨directory⟩)
    else pure (home.map fun h => ⟨h ++ "/.config"⟩)
  | none, home => pure (home.map fun h => ⟨h ++ "/.config"⟩)

def namedPaths (t : Files.Tree) (user : Option Path) (arguments : List String) : List Path :=
  match CommandLine.read arguments with
  | .error _ => []
  | .ok c =>
    match Settings.load t user c.config with
    | .error _ => [c.directory]
    | .ok loaded => [c.directory, c.outDir.getD loaded.settings.output.directory]

def readTree (user : Option Path) (arguments : List String) : IO Files.Tree := do
  let here ← IO.currentDir
  let home := (here.toString.splitOn "/").filter (· ≠ "")
  let t ← addBelow depthLimit (.empty home) home
  let config := (CommandLine.read arguments).toOption.bind (·.config)
  let t ← (config.toList ++ Settings.standardFiles user).foldlM addPath t
  (namedPaths t user arguments).foldlM addPath t

end Toolwright.Main

def main (arguments : List String) : IO UInt32 := do
  let user ← Toolwright.Main.userDirectory
  let before ← Toolwright.Main.readTree user arguments
  let ending := Toolwright.Program.run before user arguments
  Toolwright.Main.writeChanges before ending.tree
  for p in ending.prints do
    match p with
    | .out text => (← IO.getStdout).putStr text
    | .err text => (← IO.getStderr).putStr text
  pure ending.status.toUInt32
