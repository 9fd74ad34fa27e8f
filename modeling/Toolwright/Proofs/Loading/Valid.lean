import Toolwright.Proofs.Loading.Wiring
import Toolwright.Proofs.Text.Blank

/-!
Which descriptions are accepted. A description that can be read as a tool is loaded exactly when its
name can be the name of a directory and no list of names or values repeats a member. Otherwise
nothing is made, and the message tells what is wrong with the name or, if nothing is, the first
member that repeats an earlier one, in the first of the lists that has one.
-/

namespace Toolwright

/-- The member at the earliest place whose member stood before it. -/
def IsFirstRepeated (xs : List String) (x : String) : Prop :=
  ∃ before after, xs = before ++ x :: after ∧ before.Nodup ∧ x ∈ before

theorem repeatedAfter?_eq_some {seen xs : List String} {x : String} :
    repeatedAfter? seen xs = some x ↔
      ∃ before after, xs = before ++ x :: after ∧ before.Nodup ∧ (∀ y ∈ before, y ∉ seen) ∧
        (x ∈ before ∨ x ∈ seen) := by
  -- a member that was not seen joins those that were, and so is a member in front
  induction xs generalizing seen with
  | nil => simp [repeatedAfter?]
  | cons first rest ih =>
    rw [repeatedAfter?]
    by_cases known : first ∈ seen
    · rw [if_pos (by simpa using known), Option.some_inj]
      constructor
      · rintro rfl
        exact ⟨[], rest, rfl, List.nodup_nil, List.forall_mem_nil _, .inr known⟩
      · rintro ⟨before, after, list, _, fresh, _⟩
        cases before with
        | nil => exact (List.cons.inj list).1
        | cons y before =>
          obtain rfl := (List.cons.inj list).1
          exact absurd known (fresh first List.mem_cons_self)
    · rw [if_neg (by simpa using known), ih]
      constructor
      · rintro ⟨before, after, rfl, distinct, fresh, again⟩
        have new : first ∉ before := fun among => fresh first among List.mem_cons_self
        refine ⟨first :: before, after, rfl, List.nodup_cons.2 ⟨new, distinct⟩, ?_, ?_⟩
        · exact List.forall_mem_cons.2 ⟨known, fun y hy => mt (List.mem_cons_of_mem _) (fresh y hy)⟩
        · rcases again with inside | earlier
          · exact .inl (List.mem_cons_of_mem _ inside)
          · exact (List.mem_cons.1 earlier).imp_left fun same => List.mem_cons.2 (.inl same)
      · rintro ⟨before, after, list, distinct, fresh, again⟩
        cases before with
        | nil =>
          obtain rfl := (List.cons.inj list).1
          exact absurd (again.resolve_left List.not_mem_nil) known
        | cons y before =>
          obtain ⟨rfl, rfl⟩ := List.cons.inj list
          obtain ⟨new, distinct⟩ := List.nodup_cons.1 distinct
          refine ⟨before, after, rfl, distinct, fun y hy => ?_, ?_⟩
          · rw [List.mem_cons, not_or]
            exact ⟨fun same => new (same ▸ hy), fresh y (List.mem_cons_of_mem _ hy)⟩
          · rcases again with inside | earlier
            · exact (List.mem_cons.1 inside).symm.imp_right fun same => List.mem_cons.2 (.inl same)
            · exact .inr (List.mem_cons_of_mem _ earlier)

theorem repeated?_eq_some {xs : List String} {x : String} :
    repeated? xs = some x ↔ IsFirstRepeated xs x := by
  simp [repeated?, repeatedAfter?_eq_some, IsFirstRepeated]

inductive Owner where
  | settings (task : Task)
  | dataClass (d : DataClass)
  | enumeration (e : Enumeration)

def Owner.members : Owner → List String
  | .settings task => task.settings.properties.map (·.name)
  | .dataClass d => d.properties.map (·.name)
  | .enumeration e => e.values

namespace Tool

def owners (t : Tool) : List Owner :=
  t.tasks.map .settings ++ (t.dataClasses.map .dataClass ++ t.enumerations.map .enumeration)

def complaint (t : Tool) (x : String) : Owner → String
  | .settings task =>
    "duplicate property '" ++ x ++ "' in " ++ task.settings.name.getD (t.name ++ " task")
  | .dataClass d => "duplicate property '" ++ x ++ "' in " ++ d.name
  | .enumeration e => "duplicate value '" ++ x ++ "' in enumeration " ++ e.name

/-- The first owner with a repeated member, and the first such member of it. -/
def FirstRepeats (t : Tool) (owner : Owner) (x : String) : Prop :=
  ∃ before after, t.owners = before ++ owner :: after ∧ (∀ o ∈ before, o.members.Nodup) ∧
    IsFirstRepeated owner.members x

/-- A name that shows, is no way through directories and has no separator in it. -/
structure HasUsableName (t : Tool) : Prop where
  visible : ∃ c ∈ t.name.toList, Text.isBlank c = false
  notHere : Text.trimmed t.name ≠ "."
  notAbove : Text.trimmed t.name ≠ ".."
  slash : '/' ∉ t.name.toList
  backslash : '\\' ∉ t.name.toList

structure IsValid (t : Tool) : Prop where
  name : t.HasUsableName
  tasks : ∀ task ∈ t.tasks, (task.settings.properties.map (·.name)).Nodup
  dataClasses : ∀ d ∈ t.dataClasses, (d.properties.map (·.name)).Nodup
  enumerations : ∀ e ∈ t.enumerations, e.values.Nodup

def ownerDefect? (t : Tool) : Owner → Option Defect
  | .settings task => t.taskDefect? task
  | .dataClass d => dataDefect? d
  | .enumeration e => enumerationDefect? e

variable {t : Tool}

theorem defect?_eq_owners : t.defect? = t.nameDefect?.or (t.owners.findSome? t.ownerDefect?) := by
  simp only [defect?, owners, List.findSome?_append, List.findSome?_map]
  rfl

theorem ownerDefect?_eq_none {owner : Owner} :
    t.ownerDefect? owner = none ↔ owner.members.Nodup := by
  cases owner with
  | settings task => exact repeatedProperty?_eq_none
  | dataClass d => exact repeatedProperty?_eq_none
  | enumeration e => exact Option.map_eq_none_iff.trans repeated?_eq_none

theorem message_of_ownerDefect? {owner : Owner} {d : Defect} (h : t.ownerDefect? owner = some d) :
    ∃ x, IsFirstRepeated owner.members x ∧ d.message = t.complaint x owner := by
  cases owner with
  | settings task =>
    obtain ⟨x, found, rfl⟩ := Option.map_eq_some_iff.1 h
    exact ⟨x, repeated?_eq_some.1 found, rfl⟩
  | dataClass c =>
    obtain ⟨x, found, rfl⟩ := Option.map_eq_some_iff.1 h
    exact ⟨x, repeated?_eq_some.1 found, rfl⟩
  | enumeration e =>
    obtain ⟨x, found, rfl⟩ := Option.map_eq_some_iff.1 h
    exact ⟨x, repeated?_eq_some.1 found, rfl⟩

theorem FirstRepeats.of_defect {d : Defect} (h : t.owners.findSome? t.ownerDefect? = some d) :
    ∃ owner x, t.FirstRepeats owner x ∧ d.message = t.complaint x owner := by
  obtain ⟨before, owner, after, order, found, none⟩ := List.findSome?_eq_some_iff.1 h
  obtain ⟨x, first, message⟩ := message_of_ownerDefect? found
  have distinct : ∀ o ∈ before, o.members.Nodup := fun o ho => ownerDefect?_eq_none.1 (none o ho)
  exact ⟨owner, x, ⟨before, after, order, distinct, first⟩, message⟩

end Tool

namespace Tool

variable {t : Tool}

theorem trimmed_name_isEmpty :
    (Text.trimmed t.name).isEmpty = true ↔ ¬ ∃ c ∈ t.name.toList, Text.isBlank c = false := by
  rw [String.isEmpty_iff, Text.trimmed, ← String.toList_inj, String.toList_ofList,
    String.toList_empty, Text.trim_eq_nil]
  simp [Text.Blanks]

theorem any_separator {s : List Char} :
    (s.any fun c => c == '/' || c == '\\') = true ↔ '/' ∈ s ∨ '\\' ∈ s := by
  simp only [List.any_eq_true, Bool.or_eq_true, beq_iff_eq]
  constructor
  · rintro ⟨c, among, rfl | rfl⟩
    · exact .inl among
    · exact .inr among
  · rintro (slash | backslash)
    · exact ⟨_, slash, .inl rfl⟩
    · exact ⟨_, backslash, .inr rfl⟩

theorem nameDefect?_eq_none : t.nameDefect? = none ↔ t.HasUsableName := by
  unfold nameDefect?
  dsimp only
  split
  · rename_i blank
    exact iff_of_false (by simp) fun usable => trimmed_name_isEmpty.1 blank usable.visible
  · rename_i shown
    have visible := not_not.1 (mt trimmed_name_isEmpty.2 shown)
    split
    · rename_i bad
      rw [any_separator] at bad
      refine iff_of_false (by simp) fun usable => ?_
      rcases bad with here | above | slash | backslash
      · exact usable.notHere here
      · exact usable.notAbove above
      · exact usable.slash slash
      · exact usable.backslash backslash
    · rename_i good
      rw [any_separator] at good
      simp only [not_or] at good
      exact iff_of_true rfl ⟨visible, good.1, good.2.1, good.2.2.1, good.2.2.2⟩

def nameComplaint (t : Tool) : String :=
  if Text.allBlank t.name then "tool Name must not be empty"
  else "tool Name '" ++ t.name ++ "' is not usable as a directory name"

theorem message_of_nameDefect? {d : Defect} (h : t.nameDefect? = some d) :
    d.message = t.nameComplaint := by
  have blank : (Text.trimmed t.name).isEmpty = true ↔ Text.allBlank t.name = true := by
    rw [trimmed_name_isEmpty, Text.allBlank, List.all_eq_true]
    simp
  unfold nameDefect? at h
  dsimp only at h
  split at h
  · rename_i empty
    cases h
    rw [nameComplaint, if_pos (blank.1 empty)]
    rfl
  · rename_i shown
    split at h
    · cases h
      rw [nameComplaint, if_neg (mt blank.2 shown)]
      rfl
    · cases h

theorem defect?_eq_none_iff_isValid : t.defect? = none ↔ t.IsValid := by
  rw [defect?_eq_none, nameDefect?_eq_none]
  exact ⟨fun ⟨name, tasks, dataClasses, enumerations⟩ => ⟨name, tasks, dataClasses, enumerations⟩,
    fun ⟨name, tasks, dataClasses, enumerations⟩ => ⟨name, tasks, dataClasses, enumerations⟩⟩

/-- What is said about a description that is not valid: something about its name, or about the first
repeated member. -/
theorem message_of_defect? {d : Defect} (h : t.defect? = some d) :
    (¬ t.HasUsableName → d.message = t.nameComplaint) ∧
      (t.HasUsableName → ∃ owner x, t.FirstRepeats owner x ∧ d.message = t.complaint x owner) := by
  rw [defect?_eq_owners] at h
  constructor
  · intro unusable
    obtain ⟨found, named⟩ := Option.ne_none_iff_exists.1 (mt nameDefect?_eq_none.1 unusable)
    rw [← named, Option.some_or, Option.some_inj] at h
    exact message_of_nameDefect? (h ▸ named.symm)
  · intro usable
    rw [nameDefect?_eq_none.2 usable, Option.none_or] at h
    exact FirstRepeats.of_defect h

end Tool

namespace Loading

theorem load_defect {options : LoadOptions} {t : Files.Tree} {file : Path} {text : String}
    {tool : Tool} {d : Defect} (read : t.readText file = .ok text)
    (parse : Tool.parse text = .ok tool) (found : tool.defect? = some d) :
    load options t file = (.error (.load file (.defect d)), t) := by
  have invalid : readValid t file = .error (.load file (.defect d)) := by
    simp only [readValid, read, parse, found]
  simp only [load, invalid]

/-- A description that can be read is loaded exactly when it is valid, if the directory can be made
that is asked for. One that is not valid makes nothing and is refused with a message about its name
or, if the name is usable, about the first repeated member. -/
theorem load_iff_isValid {options : LoadOptions} {t : Files.Tree} {file : Path} {text : String}
    {tool : Tool} (read : t.readText file = .ok text) (parse : Tool.parse text = .ok tool) :
    ((options.createDirectories = true →
        ∃ t₁, t.createDirectories (tool.directory options) = (.ok (), t₁)) →
      ((∃ loaded t₁, load options t file = (.ok loaded, t₁)) ↔ tool.IsValid)) ∧
    (¬ tool.IsValid → ∃ failure, load options t file = (.error failure, t) ∧
      (¬ tool.HasUsableName → failure.message =
        "Failed to load " ++ file.displayName ++ ": " ++ tool.nameComplaint) ∧
      (tool.HasUsableName → ∃ owner x, tool.FirstRepeats owner x ∧ failure.message =
        "Failed to load " ++ file.displayName ++ ": " ++ tool.complaint x owner)) := by
  constructor
  · intro creatable
    have made : ∃ t₁, makeDirectory options t (tool.directory options) = (.ok (), t₁) := by
      unfold makeDirectory
      split
      · rename_i wanted
        exact creatable wanted
      · exact ⟨t, rfl⟩
    rw [← Tool.defect?_eq_none_iff_isValid]
    constructor
    · rintro ⟨loaded, t₁, success⟩
      obtain ⟨parsed, valid, _, _⟩ := load_eq_ok.1 success
      obtain ⟨text₁, read₁, parse₁, sound⟩ := readValid_eq_ok.1 valid
      obtain rfl : text = text₁ := Except.ok.inj (read.symm.trans read₁)
      obtain rfl : tool = parsed := Except.ok.inj (parse.symm.trans parse₁)
      exact sound
    · intro sound
      obtain ⟨t₁, made⟩ := made
      have valid := readValid_eq_ok.2 ⟨text, read, parse, sound⟩
      exact ⟨_, t₁, load_eq_ok.2 ⟨tool, valid, made, rfl⟩⟩
  · intro invalid
    -- a description is checked before anything is made, so the tree stays as it is
    obtain ⟨d, found⟩ := Option.ne_none_iff_exists'.1
      (mt Tool.defect?_eq_none_iff_isValid.1 invalid)
    obtain ⟨named, listed⟩ := Tool.message_of_defect? found
    refine ⟨_, load_defect read parse found, fun unusable => ?_, fun usable => ?_⟩
    · exact congrArg ("Failed to load " ++ file.displayName ++ ": " ++ ·) (named unusable)
    · obtain ⟨owner, x, first, message⟩ := listed usable
      exact ⟨owner, x, first, congrArg ("Failed to load " ++ file.displayName ++ ": " ++ ·) message⟩

/-- A task and a data class that share the name of a property, which repeats nothing. -/
def sharedText : String :=
  "[\"pack\",null,null,null,null,null,[],[[null,null,null,[null,null,[[\"Id\",\"int\"]]]]]," ++
    "[[\"Item\",null,[[\"Id\",\"int\"],[\"To\",\"int\"]]]]]"

def sharedClass : DataClass where
  name := "Item"
  properties := [{ name := "Id", type := "int" }, { name := "To", type := "int" }]

def sharedTool : Tool where
  name := "pack"
  tasks := [{ settings := { properties := [{ name := "Id", type := "int" }] } }]
  dataClasses := [sharedClass]

/-- Both a data class and an enumeration repeat a member; two classes share one. -/
def repeatsText : String :=
  "[\"pack\",null,null,null,null,null,[],[[null,null,null,[null,null,[[\"Id\",\"int\"]]]]]," ++
    "[[\"Item\",null,[[\"Id\",\"int\"],[\"To\",\"int\"],[\"To\",\"bool\"],[\"Id\",\"int\"]]]]," ++
    "[[\"Mode\",null,[\"a\",\"a\"]]]]"

def repeatsClass : DataClass where
  name := "Item"
  properties := [{ name := "Id", type := "int" }, { name := "To", type := "int" },
    { name := "To", type := "bool" }, { name := "Id", type := "int" }]

def repeatsTool : Tool where
  name := "pack"
  tasks := [{ settings := { properties := [{ name := "Id", type := "int" }] } }]
  dataClasses := [repeatsClass]
  enumerations := [{ name := "Mode", values := ["a", "a"] }]

def makingOptions : LoadOptions := { soleOptions with createDirectories := true }

set_option maxRecDepth 4000 in
theorem load_iff_isValid_repeats :
    ((soleTree sharedText).readText soleFile = .ok sharedText ∧
      Tool.parse sharedText = .ok sharedTool ∧
      (∃ t₁, (soleTree sharedText).createDirectories (sharedTool.directory makingOptions) =
        (.ok (), t₁)) ∧
      ∃ loaded t₁, load makingOptions (soleTree sharedText) soleFile = (.ok loaded, t₁)) ∧
    (soleTree repeatsText).readText soleFile = .ok repeatsText ∧
      Tool.parse repeatsText = .ok repeatsTool ∧ repeatsTool.HasUsableName ∧
      ¬ repeatsTool.IsValid ∧
      ∃ failure, load makingOptions (soleTree repeatsText) soleFile =
          (.error failure, soleTree repeatsText) ∧
        ∃ owner x, repeatsTool.FirstRepeats owner x ∧
          failure.message = "Failed to load demo.json: " ++ repeatsTool.complaint x owner := by
  constructor
  · have read : (soleTree sharedText).readText soleFile = .ok sharedText :=
      Files.Tree.readText_eq_ok.2 ⟨["demo.json"], by rfl⟩
    have parse : Tool.parse sharedText = .ok sharedTool := by rfl
    have creatable : ∃ t₁, (soleTree sharedText).createDirectories
        (sharedTool.directory makingOptions) = (.ok (), t₁) := ⟨_, by rfl⟩
    have valid : sharedTool.IsValid := Tool.defect?_eq_none_iff_isValid.1 (by rfl)
    have accepted := (load_iff_isValid read parse).1 fun _ => creatable
    exact ⟨read, parse, creatable, accepted.2 valid⟩
  · have read : (soleTree repeatsText).readText soleFile = .ok repeatsText :=
      Files.Tree.readText_eq_ok.2 ⟨["demo.json"], by rfl⟩
    have parse : Tool.parse repeatsText = .ok repeatsTool := by rfl
    have usable : repeatsTool.HasUsableName := Tool.nameDefect?_eq_none.1 (by rfl)
    have invalid : ¬ repeatsTool.IsValid := fun valid =>
      absurd (valid.dataClasses _ List.mem_cons_self) (by decide)
    obtain ⟨failure, refused, _, repeats⟩ :=
      (@load_iff_isValid makingOptions _ _ _ _ read parse).2 invalid
    exact ⟨read, parse, usable, invalid, failure, refused, repeats usable⟩

/-- The second `To` comes first. -/
example : repeatsTool.FirstRepeats (.dataClass repeatsClass) "To" :=
  ⟨[.settings { settings := { properties := [{ name := "Id", type := "int" }] } }],
    [.enumeration { name := "Mode", values := ["a", "a"] }], rfl, by decide +kernel,
    [_, _], [_], rfl, by decide, by decide⟩

end Loading

end Toolwright
