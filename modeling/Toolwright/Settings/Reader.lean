import Toolwright.Settings.Basic
import Toolwright.Yaml.Meaning

/-!
Reading settings from YAML. Keys that are not known are passed over, and no key is given twice.
What does not fit is reported with the way to it and its place; whatever comes first in the text is
reported first.
-/

namespace Toolwright

namespace Settings

open Yaml

inductive Found where
  | scalar (m : Meaning)
  | sequence
  | mapping

def Found.describe : Found → String
  | .scalar m => m.describe
  | .sequence => "sequence"
  | .mapping => "map"

inductive Wanted where
  | text
  | path
  | boolean
  /-- A whole number of 64 bits, by the name of its type. -/
  | natural (type : String)
  | key
  | record (title : String)

def Wanted.describe : Wanted → String
  | .text => "a string"
  | .path => "path string"
  | .boolean => "a boolean"
  | .natural type => type
  | .key => "field identifier"
  | .record title => "struct " ++ title

inductive Problem where
  | wrongType (found : Found) (wanted : Wanted)
  /-- A text that is not of the kind that its tag names. -/
  | wrongText (text : List Char) (kind : Kind)
  | repeatedKey (key : String)

def Problem.message : Problem → String
  | .wrongType found wanted =>
    "invalid type: " ++ found.describe ++ ", expected " ++ wanted.describe
  | .wrongText text kind =>
    "invalid value: string " ++ String.ofList (Text.literal text) ++ ", expected " ++ kind.describe
  | .repeatedKey key => "duplicate field \x60" ++ key ++ "\x60"

/-- Where something is among the settings: the keys on the way and the place in the text. -/
structure Site where
  keys : List String
  mark : Mark

inductive Fault where
  | yaml (f : Yaml.Fault)
  | misfit (problem : Problem) (site : Site)

def Fault.message : Fault → String
  | .yaml f => f.message
  | .misfit problem site =>
    (if site.keys = [] then "" else ".".intercalate site.keys ++ ": ") ++ problem.message ++
      site.mark.place

abbrev Events := List (Event × Mark)

/-- Reading a value from the events that begin with it, given the way to it. The answer has the
events behind it. -/
abbrev Reader (α : Type) := Document → List String → Events → Except Fault (α × Events)

def endFault (d : Document) : Fault := .yaml (d.fault.getD (.at_ .endOfStream .start none))

/-- Read a value from its first event and those behind it; an alias is read as what it stands
for. -/
def reader {α : Type} (read : Document → Site → Event → Events → Except Fault (α × Events)) :
    Reader α := fun d keys events =>
  match events with
  | [] => .error (endFault d)
  | (.alias anchor, _) :: rest =>
    match d.follow anchor with
    | [] => .error (endFault d)
    | (event, mark) :: inner => do
      let (x, _) ← read d ⟨keys, mark⟩ event inner
      .ok (x, rest)
  | (event, mark) :: rest => read d ⟨keys, mark⟩ event rest

def misfit (site : Site) (event : Event) (wanted : Wanted) : Fault :=
  match event with
  | .scalar s =>
    match s.meaning with
    | .ok m => .misfit (.wrongType (.scalar m) wanted) site
    | .error kind => .misfit (.wrongText s.text kind) site
  | .sequenceStart => .misfit (.wrongType .sequence wanted) site
  | _ => .misfit (.wrongType .mapping wanted) site

def textReader (wanted : Wanted) : Reader String :=
  reader fun _ site event rest =>
    match event with
    | .scalar s => .ok (String.ofList s.text, rest)
    | _ => .error (misfit site event wanted)

def ofScalar {α : Type} (wanted : Wanted) (kind : Kind) (value? : List Char → Option α) :
    Reader α :=
  reader fun _ site event rest =>
    match event with
    | .scalar s =>
      match if s.isBare kind then value? s.text else none with
      | some x => .ok (x, rest)
      | none => .error (misfit site event wanted)
    | _ => .error (misfit site event wanted)

def truthReader : Reader Bool := ofScalar .boolean .boolean boolean?

def naturalReader (type : String) : Reader Nat :=
  ofScalar (.natural type) .integer fun s => (natural? s).filter (· ≤ 0xFFFFFFFFFFFFFFFF)

/-- A text, or nothing where a plain scalar means null. A text that is tagged as null and is not is
a fault of the whole settings: `top`. -/
def optionalText (top : Site) : Reader (Option String) := fun d keys events =>
  let absent : Except Fault (Bool × Events) :=
    reader (fun _ _ event rest =>
      match event with
      | .scalar s =>
        if s.style ≠ .plain then .ok (false, rest)
        else if s.kind? = some .null then
          if isNullText s.text then .ok (true, rest)
          else .error (.misfit (.wrongText s.text .null) top)
        else if s.tag.isSome then .ok (false, rest)
        else .ok (s.text.isEmpty || isNullText s.text, rest)
      | _ => .ok (false, rest)) d keys events
  match absent with
  | .error f => .error f
  | .ok (true, rest) => .ok (none, rest)
  | .ok (false, _) => do
    let (x, rest) ← textReader .text d keys events
    .ok (some x, rest)

structure Field (σ : Type) where
  key : String
  read : Site → σ → Reader σ

/-- A field whose value takes the place of its default. -/
def field {σ α : Type} (key : String) (read : Reader α) (set : σ → α → σ) : Field σ :=
  ⟨key, fun _ s d keys events => do
    let (x, rest) ← read d keys events
    .ok (set s x, rest)⟩

def skipNode (d : Document) : Nat → Events → Except Fault Events
  | _, [] => .error (endFault d)
  | depth, (event, _) :: rest =>
    match event with
    | .sequenceStart => skipNode d (depth + 1) rest
    | .mappingStart => skipNode d (depth + 1) rest
    | .sequenceEnd => if depth ≤ 1 then .ok rest else skipNode d (depth - 1) rest
    | .mappingEnd => if depth ≤ 1 then .ok rest else skipNode d (depth - 1) rest
    | _ => if depth = 0 then .ok rest else skipNode d depth rest

/-- A key, and what it is called on the way to its value. -/
def key : Reader (String × String) := fun d keys events =>
  let step := fun (name : String) =>
    match events with
    | (.scalar _, _) :: _ => name
    | _ => "?"
  do
    let (name, rest) ← textReader .key d keys events
    .ok ((name, step name), rest)

def entries {σ : Type} (d : Document) (fields : List (Field σ)) (site : Site) :
    Nat → List String → σ → Events → Except Fault (σ × Events)
  | 0, _, s, events => .ok (s, events)
  | _ + 1, _, _, [] => .error (endFault d)
  | _ + 1, _, s, (.mappingEnd, _) :: rest => .ok (s, rest)
  | fuel + 1, seen, s, event :: more => do
    let ((name, step), rest) ← key d site.keys (event :: more)
    match fields.find? (·.key == name) with
    | none => entries d fields site fuel seen s (← skipNode d 0 rest)
    | some f =>
      if seen.contains name then .error (.misfit (.repeatedKey name) site)
      else
        let (s, rest) ← f.read site s d (site.keys ++ [step]) rest
        entries d fields site fuel (name :: seen) s rest

/-- A record from a mapping; where nothing is written it has its defaults. -/
def record {σ : Type} (title : String) (fields : List (Field σ)) (s : σ) : Reader σ :=
  reader fun d site event rest =>
    match event with
    | .mappingStart => entries d fields site (rest.length + 1) [] s rest
    | .nothing => .ok (s, rest)
    | .scalar t =>
      if t.text = [] ∧ t.style = .plain then .ok (s, rest)
      else .error (misfit site event (.record title))
    | _ => .error (misfit site event (.record title))

def outputReader : Reader OutputSettings :=
  record "OutputConfig" [
    field "out_dir" (textReader .path) fun s x => { s with directory := ⟨x⟩ },
    field "provenance_base_url" (textReader .text) fun s x => { s with provenanceBase := x },
    field "verify_determinism" truthReader fun s x => { s with verifyDeterminism := x }] {}

def referencesReader : Reader ReferenceSettings :=
  record "ReferencesConfig" [
    field "enabled" truthReader fun s x => { s with enabled := x },
    field "fetch_timeout_ms" (naturalReader "u64") fun s x => { s with fetchTimeout := ⟨x⟩ },
    field "max_concurrent_fetches" (naturalReader "usize") fun s x => { s with maxConcurrent := x },
    field "user_agent" (textReader .text) fun s x => { s with agent := x }] {}

def runReader : Reader RunSettings :=
  record "RunConfig" [
    field "fail_fast" truthReader fun s x => { s with failFast := x },
    field "dry_run" truthReader fun s x => { s with dryRun := x }] {}

def settingsReader : Reader Settings :=
  record "Config" [
    ⟨"log_level", fun site s d keys events => do
      let (x, rest) ← optionalText site d keys events
      .ok ({ s with logLevel := x }, rest)⟩,
    field "output" outputReader fun s x => { s with output := x },
    field "references" referencesReader fun s x => { s with references := x },
    field "run" runReader fun s x => { s with run := x }] {}

def parse (s : List Char) : Except Fault Settings := do
  let d := Document.read s
  let (settings, _) ← settingsReader d [] d.events
  match d.fault with
  | some f => .error (.yaml f)
  | none => if d.followed then .error (.yaml .secondDocument) else .ok settings

end Settings

end Toolwright
