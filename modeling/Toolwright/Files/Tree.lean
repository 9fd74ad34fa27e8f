import Toolwright.Files.Fault
import Toolwright.Files.Path
import Toolwright.Text.Blank
import Toolwright.Text.Utf8

/-!
File trees. A `Location` is the list of names that lead from the root to an entry; a `Tree` says
what is at each location and in which directory relative paths begin. `get?` is the view of a tree:
every operation is told by what it does to `get?`. There are no links in a tree, and nothing is
refused for want of permission.
-/

namespace Toolwright.Files

abbrev Location := List String

inductive Entry where
  | directory
  | file (content : ByteArray)

def Entry.isDirectory : Entry → Bool
  | .directory => true
  | .file _ => false

/-- Entries by location, each location at most once; `home` is where relative paths begin. -/
structure Tree where
  home : Location
  entries : List (Location × Entry)

namespace Tree

/-- What is at a location. The root is always a directory. -/
def get? (t : Tree) (at_ : Location) : Option Entry :=
  if at_ = [] then some .directory else t.entries.lookup at_

/-- Put an entry at a location, in place of what was there. -/
def put (t : Tree) (at_ : Location) (entry : Entry) : Tree :=
  { t with entries := (at_, entry) :: t.entries.filter fun e => e.1 != at_ }

def removeAt (t : Tree) (at_ : Location) : Tree :=
  { t with entries := t.entries.filter fun e => !at_.isPrefixOf e.1 }

/-- A tree with nothing but the directories that lead to `home`. -/
def empty (home : Location) : Tree :=
  ⟨home, (List.range home.length).map fun n => (home.take (n + 1), .directory)⟩

@[simp] theorem get?_nil (t : Tree) : t.get? [] = some .directory := by simp [get?]

theorem lookup_filter_ne {β : Type} (key other : Location) (h : key ≠ other) :
    ∀ entries : List (Location × β),
      (entries.filter fun e => e.1 != other).lookup key = entries.lookup key
  | [] => rfl
  | (k, v) :: rest => by
    have ih := lookup_filter_ne key other h rest
    by_cases hk : k = other
    · subst hk
      have hne : (key == k) = false := by simpa using h
      rw [List.filter_cons_of_neg (by simp), ih, List.lookup_cons, hne]
    · rw [List.filter_cons_of_pos (by simpa using hk)]
      simp only [List.lookup_cons, ih]

theorem get?_put_self (t : Tree) {at_ : Location} (h : at_ ≠ []) (entry : Entry) :
    (t.put at_ entry).get? at_ = some entry := by
  simp [get?, put, h]

theorem get?_put_of_ne (t : Tree) {at_ other : Location} (h : other ≠ at_) (entry : Entry) :
    (t.put at_ entry).get? other = t.get? other := by
  have hne : (other == at_) = false := by simpa using h
  simp only [get?, put, List.lookup_cons, hne]
  rw [lookup_filter_ne other at_ h]

@[simp] theorem home_put (t : Tree) (at_ : Location) (entry : Entry) :
    (t.put at_ entry).home = t.home := rfl

/-- The most bytes that the name of an entry may have. -/
def nameLimit : Nat := 255

/-- The most bytes that a path may have. -/
def pathLimit : Nat := 4095

/-- Where a path leads: to an entry, or to a free name in a directory. -/
inductive Place where
  | entry (at_ : Location) (entry : Entry)
  | vacant (at_ : Location)

/-- The steps of a path as the system takes them: every dot and every empty part asks for a
directory. -/
inductive Part where
  | stay
  | up
  | name (name : String)

def partOf (part : List Char) : Part :=
  if part = [] ∨ part = ['.'] then .stay
  else if part = ['.', '.'] then .up
  else .name (String.ofList part)

def walk (t : Tree) : Location → Entry → List Part → Except Fault Place
  | at_, entry, [] => .ok (.entry at_ entry)
  | _, .file _, _ :: _ => .error .notDirectory
  | at_, .directory, .stay :: rest => walk t at_ .directory rest
  | at_, .directory, .up :: rest => walk t at_.dropLast .directory rest
  | at_, .directory, .name name :: rest =>
    if nameLimit < name.utf8ByteSize then .error .nameTooLong
    else
      match t.get? (at_ ++ [name]), rest with
      | some entry, _ => walk t (at_ ++ [name]) entry rest
      | none, [] => .ok (.vacant (at_ ++ [name]))
      | none, _ :: _ => .error .notFound

def partsOf (p : Path) : List Part := (Text.splitAt (· == '/') p.text.toList).map partOf

def locate (t : Tree) (p : Path) : Except Fault Place :=
  if p.text.toList.contains '\x00' then .error .nulInPath
  else if p.text.isEmpty then .error .notFound
  else if pathLimit < p.text.utf8ByteSize then .error .nameTooLong
  else if p.isAbsolute then walk t [] .directory (partsOf p)
  else
    match t.get? t.home with
    | some entry => walk t t.home entry (partsOf p)
    | none => .error .notFound

def find (t : Tree) (p : Path) : Except Fault (Location × Entry) :=
  match t.locate p with
  | .ok (.entry at_ entry) => .ok (at_, entry)
  | .ok (.vacant _) => .error .notFound
  | .error fault => .error fault

def isDirectory (t : Tree) (p : Path) : Bool :=
  match t.find p with
  | .ok (_, .directory) => true
  | _ => false

def isFile (t : Tree) (p : Path) : Bool :=
  match t.find p with
  | .ok (_, .file _) => true
  | _ => false

def contains (t : Tree) (p : Path) : Bool := (t.find p).toOption.isSome

def read (t : Tree) (p : Path) : Except Fault ByteArray :=
  match t.find p with
  | .ok (_, .file content) => .ok content
  | .ok (_, .directory) => .error .isDirectory
  | .error fault => .error fault

def readText (t : Tree) (p : Path) : Except Fault String := do
  let content ← t.read p
  match String.fromUTF8? content with
  | some text => .ok text
  | none => .error .notText

/-- The content of a file that is to be copied; only files can be. -/
def readForCopy (t : Tree) (p : Path) : Except Fault ByteArray :=
  match t.find p with
  | .ok (_, .file content) => .ok content
  | .ok (_, .directory) => .error .notCopyable
  | .error fault => .error fault

def endsWithSlash (p : Path) : Bool := p.text.toList.getLast? == some '/'

def fileTarget (t : Tree) (p : Path) : Except Fault Location :=
  let trimmed : Path := ⟨String.ofList (Text.dropEnd (· == '/') p.text.toList)⟩
  match t.locate (if endsWithSlash p then trimmed else p) with
  | .ok (.entry at_ (.file _)) => if endsWithSlash p then .error .isDirectory else .ok at_
  | .ok (.entry _ .directory) => .error .isDirectory
  | .ok (.vacant at_) => if endsWithSlash p then .error .isDirectory else .ok at_
  | .error fault => .error fault

/-- Write a file: a new one in an existing directory, or a new content of an old one. -/
def write (t : Tree) (p : Path) (content : ByteArray) : Except Fault Tree := do
  let at_ ← t.fileTarget p
  .ok (t.put at_ (.file content))

def writeText (t : Tree) (p : Path) (text : String) : Except Fault Tree := t.write p text.toUTF8

def createDirectory (t : Tree) (p : Path) : Except Fault Tree :=
  let trimmed : Path := ⟨String.ofList (Text.dropEnd (· == '/') p.text.toList)⟩
  match t.locate (if trimmed.text.isEmpty then p else trimmed) with
  | .ok (.entry _ _) => .error .alreadyExists
  | .ok (.vacant at_) => .ok (t.put at_ .directory)
  | .error fault => .error fault

/-- How a step is written between slashes; the root is what stands before the first one. -/
def stepText : Path.Step → String
  | .root => ""
  | .here => "."
  | .up => ".."
  | .entry name => name

def parent? (p : Path) : Option Path :=
  match p.steps.reverse with
  | [] => none
  | .root :: _ => none
  | _ :: before =>
    if before = [.root] then some ⟨"/"⟩
    else some ⟨"/".intercalate (before.reverse.map stepText)⟩

/-- Make a directory and those that are missing above it, at most `fuel` of them. Those made before
a fault stay. -/
def createDirectoriesFrom : Nat → Tree → Path → Except Fault Unit × Tree
  | 0, t, _ => (.error .notFound, t)
  | fuel + 1, t, p =>
    if p.text.isEmpty then (.ok (), t)
    else
      match t.createDirectory p with
      | .ok made => (.ok (), made)
      | .error .notFound =>
        match parent? p with
        | none => (.error .notFound, t)
        | some above =>
          match createDirectoriesFrom fuel t above with
          | (.error fault, t) => (.error fault, t)
          | (.ok (), t) =>
            match t.createDirectory p with
            | .ok made => (.ok (), made)
            | .error fault => if t.isDirectory p then (.ok (), t) else (.error fault, t)
      | .error fault => if t.isDirectory p then (.ok (), t) else (.error fault, t)

def createDirectories (t : Tree) (p : Path) : Except Fault Unit × Tree :=
  createDirectoriesFrom (p.steps.length + 2) t p

def namesIn (t : Tree) (at_ : Location) : List String :=
  t.entries.filterMap fun e => if e.1.dropLast = at_ then e.1.getLast? else none

/-- Remove a file or a directory with all that is in it. -/
def remove (t : Tree) (p : Path) : Except Fault Tree := do
  let (at_, _) ← t.find p
  .ok (t.removeAt at_)

end Tree

end Toolwright.Files
