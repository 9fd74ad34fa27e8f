import Toolwright.Proofs.Json.Wording
import Toolwright.Proofs.Saving.WriteBack
import Toolwright.Proofs.Text.Lines

/-!
Tools that differ in their wording only: in texts that say something, wherever they stand. Their
canonical texts have equally many lines, so that a description in canonical form whose wording was
changed is written back to itself.
-/

namespace Toolwright

open Json

structure Property.Reworded (p q : Property) : Prop where
  name : Alike p.name q.name
  type : Alike p.type q.type
  settable : p.settable = q.settable
  default : p.default.tree.Reworded q.default.tree
  format : Option.Rel Alike p.format q.format
  help : Option.Rel Alike p.help q.help
  secret : p.secret = q.secret

structure SettingsClass.Reworded (c d : SettingsClass) : Prop where
  name : Option.Rel Alike c.name d.name
  help : Option.Rel Alike c.help d.help
  properties : List.Forall₂ Property.Reworded c.properties d.properties

structure Task.Reworded (t u : Task) : Prop where
  postfixText : Option.Rel Alike t.postfixText u.postfixText
  help : Option.Rel Alike t.help u.help
  definitiveArgument : Option.Rel Alike t.definitiveArgument u.definitiveArgument
  settings : t.settings.Reworded u.settings

structure DataClass.Reworded (c d : DataClass) : Prop where
  name : Alike c.name d.name
  help : Option.Rel Alike c.help d.help
  properties : List.Forall₂ Property.Reworded c.properties d.properties

structure Enumeration.Reworded (e f : Enumeration) : Prop where
  name : Alike e.name f.name
  help : Option.Rel Alike e.help f.help
  values : List.Forall₂ Alike e.values f.values

def Reference.Reworded (r s : Reference) : Prop := Alike r.text s.text

/-- The tools differ in texts that say something, and in what is derived. -/
structure Tool.Reworded (t u : Tool) : Prop where
  name : Alike t.name u.name
  help : Option.Rel Alike t.help u.help
  officialUrl : Option.Rel Alike t.officialUrl u.officialUrl
  packageId : Option.Rel Alike t.packageId u.packageId
  packageExecutable : Option.Rel Alike t.packageExecutable u.packageExecutable
  environmentExecutable : Option.Rel Alike t.environmentExecutable u.environmentExecutable
  references : List.Forall₂ Reference.Reworded t.references u.references
  tasks : List.Forall₂ Task.Reworded t.tasks u.tasks
  dataClasses : List.Forall₂ DataClass.Reworded t.dataClasses u.dataClasses
  enumerations : List.Forall₂ Enumeration.Reworded t.enumerations u.enumerations

namespace Json

variable {j k : Json} {as bs : List (String × Json)}

theorem reworded_member (key : String) (h : Reworded j k) : RewordedMembers [(key, j)] [(key, k)] :=
  .cons key h .nil

theorem RewordedMembers.optional (begun : RewordedMembers as bs) (key : String) (h : Reworded j k) :
    RewordedMembers (as ++ optionalMember key j) (bs ++ optionalMember key k) := by
  refine begun.append ?_
  rw [optionalMember, optionalMember, h.isZero_eq]
  split
  · exact .nil
  · exact reworded_member key h

theorem RewordedMembers.text {s t : Option String} (begun : RewordedMembers as bs) (key : String)
    (h : Option.Rel Alike s t) : RewordedMembers (as ++ optionalMember key (ofText? s))
      (bs ++ optionalMember key (ofText? t)) := by
  refine begun.optional key ?_
  cases h with
  | some alike => exact .string alike
  | none => exact .null

theorem RewordedMembers.parts {α : Type} {R : α → α → Prop} {f : α → Json} {xs ys : List α}
    (begun : RewordedMembers as bs) (key : String) (h : List.Forall₂ R xs ys)
    (part : ∀ x y, R x y → Reworded (f x) (f y)) :
    RewordedMembers (as ++ optionalMember key (.array (xs.map f)))
      (bs ++ optionalMember key (.array (ys.map f))) :=
  begun.optional key (.array (.of_forall₂ (List.rel_map part h)))

end Json

theorem Property.Reworded.toJson {p q : Property} (h : p.Reworded q) :
    p.toJson.Reworded q.toJson := by
  rw [Property.toJson, Property.toJson, h.secret]
  exact .object <| (reworded_member "Name" (.string h.name)).append
      (reworded_member "Type" (.string h.type))
    |>.optional "Default" h.default
    |>.text "Format" h.format
    |>.text "Help" h.help
    |>.optional "Secret" (.bool _)

theorem Json.RewordedMembers.properties {as bs : List (String × Json)} {ps qs : List Property}
    (begun : RewordedMembers as bs) (h : List.Forall₂ Property.Reworded ps qs) :
    RewordedMembers (as ++ optionalMember "Properties" (propertiesJson ps))
      (bs ++ optionalMember "Properties" (propertiesJson qs)) := by
  refine begun.parts "Properties" (List.rel_filter ?_ h) fun _ _ => Property.Reworded.toJson
  intro p q reworded
  show p.settable = true ↔ q.settable = true
  rw [reworded.settable]

theorem SettingsClass.Reworded.toJson {c d : SettingsClass} (h : c.Reworded d) :
    c.toJson.Reworded d.toJson :=
  .object <| RewordedMembers.nil.text "Name" h.name
    |>.text "Help" h.help
    |>.properties h.properties

theorem Task.Reworded.toJson {t u : Task} (h : t.Reworded u) : t.toJson.Reworded u.toJson :=
  .object <| RewordedMembers.nil.text "Postfix" h.postfixText
    |>.text "Help" h.help
    |>.text "DefinitiveArgument" h.definitiveArgument
    |>.append (reworded_member "SettingsClass" h.settings.toJson)

theorem DataClass.Reworded.toJson {c d : DataClass} (h : c.Reworded d) :
    c.toJson.Reworded d.toJson :=
  .object <| reworded_member "Name" (.string h.name)
    |>.text "Help" h.help
    |>.properties h.properties

theorem Enumeration.Reworded.toJson {e f : Enumeration} (h : e.Reworded f) :
    e.toJson.Reworded f.toJson :=
  .object <| reworded_member "Name" (.string h.name)
    |>.text "Help" h.help
    |>.parts "Values" h.values fun _ _ => .string

theorem Reference.Reworded.toJson {r s : Reference} (h : r.Reworded s) :
    r.toJson.Reworded s.toJson := .string h

theorem Tool.Reworded.toJson {t u : Tool} (h : t.Reworded u) : t.toJson.Reworded u.toJson :=
  .object <| reworded_member "Name" (.string h.name)
    |>.text "Help" h.help
    |>.text "OfficialUrl" h.officialUrl
    |>.text "PackageId" h.packageId
    |>.text "PackageExecutable" h.packageExecutable
    |>.text "EnvironmentExecutable" h.environmentExecutable
    |>.parts "References" h.references (fun _ _ => Reference.Reworded.toJson)
    |>.parts "Tasks" h.tasks (fun _ _ => Task.Reworded.toJson)
    |>.parts "DataClasses" h.dataClasses (fun _ _ => DataClass.Reworded.toJson)
    |>.parts "Enumerations" h.enumerations (fun _ _ => Enumeration.Reworded.toJson)

theorem Tool.Reworded.lineCount_eq {t u : Tool} (h : t.Reworded u) :
    Text.lineCount t.canonicalText.toList = Text.lineCount u.canonicalText.toList := by
  simp only [Tool.canonicalText, String.toList_ofList, Text.lineCount_ended,
    count_pretty h.toJson 0]

namespace Saving

open Files (Tree)

/-- Other words change no number of lines. So where a description is the canonical text of a tool
that was reworded, it is replaced by the new text unless nothing changed or nothing may be
written. -/
theorem save_of_reworded {t u : Tool} (same : t.Reworded u) :
    Text.lineCount t.canonicalText.toList = Text.lineCount u.canonicalText.toList ∧
    ∀ (tree : Tree) (dryRun : Bool), tree.readText u.definitionFile = .ok t.canonicalText →
      save tree u dryRun =
        if dryRun ∨ t.canonicalText = u.canonicalText then
          (.ok ⟨.description, u.definitionFile, false, Text.lineCount t.canonicalText.toList,
            Text.lineCount t.canonicalText.toList⟩, tree)
        else
          match tree.writeText u.definitionFile u.canonicalText with
          | .error fault => (.error (.serialize u.definitionFile (.fault fault)), tree)
          | .ok tree' =>
            (.ok ⟨.description, u.definitionFile, true, Text.lineCount t.canonicalText.toList,
              Text.lineCount t.canonicalText.toList⟩, tree') := by
  have count := same.lineCount_eq
  have aim : target t.canonicalText u.canonicalText = .description := target_eq_description.2 count
  have place : destination u.definitionFile (target t.canonicalText u.canonicalText) =
      u.definitionFile := by rw [destination_eq, if_pos aim]
  have tells : ∀ written, told u.definitionFile t.canonicalText u.canonicalText written =
      ⟨.description, u.definitionFile, written, Text.lineCount t.canonicalText.toList,
        Text.lineCount t.canonicalText.toList⟩ := fun written => by
    rw [told, place, aim, ← count]
  refine ⟨count, fun tree dryRun read => ?_⟩
  by_cases idle : dryRun = true ∨ t.canonicalText = u.canonicalText
  · have spared : ¬ IsDue t.canonicalText u.canonicalText dryRun := by
      rintro ⟨real, changed⟩
      rcases idle with rfl | same
      · cases real
      · exact changed ⟨aim, same⟩
    rw [if_pos idle, save, writeBack_of_not_due read spared, tells]
  · have due : IsDue t.canonicalText u.canonicalText dryRun := by
      obtain ⟨real, changed⟩ := not_or.1 idle
      exact ⟨by simpa using real, fun done => changed done.2⟩
    rw [if_neg idle, save]
    cases write : tree.writeText u.definitionFile u.canonicalText with
    | error fault =>
      rw [← place] at write
      exact (writeBack_of_fault read due write).trans (by rw [place])
    | ok tree' =>
      rw [← place] at write
      exact (writeBack_of_write read due write).trans (by rw [tells])

/-- A property with two texts inside its default, one of them empty. -/
def modes (name word : String) : Property where
  name := name
  type := "Mode"
  default := ⟨.array [.string word, .string ""], trivial, trivial, trivial⟩

def packer : Tool where
  name := "pack"
  help := some "Packs."
  tasks := [{ settings := { properties := [modes "Mode" "fast"] } }]
  enumerations := [{ name := "Mode", values := ["fast", "small"] }]

def brokenPacker : Tool where
  name := "pa\nck"
  help := some "Packs\nand\r\nunpacks."
  tasks := [{ settings := { properties := [modes "\n" "\u2028"] } }]
  enumerations := [{ name := "\nMode", values := ["fast\n", "\r"] }]
  definitionFile := ⟨"a"⟩

theorem reworded_packer : packer.Reworded brokenPacker where
  name := by decide
  help := .some (by decide)
  officialUrl := .none
  packageId := .none
  packageExecutable := .none
  environmentExecutable := .none
  references := .nil
  tasks := by
    have default : (modes "Mode" "fast").default.tree.Reworded (modes "\n" "\u2028").default.tree :=
      .array (.cons (.string (by decide)) (.cons (.string (by decide)) .nil))
    have property : (modes "Mode" "fast").Reworded (modes "\n" "\u2028") :=
      ⟨by decide, by decide, rfl, default, .none, .none, rfl⟩
    exact .cons ⟨.none, .none, .none, .none, .none, .cons property .nil⟩ .nil
  dataClasses := .nil
  enumerations := .cons ⟨by decide, .none, .cons (by decide) (.cons (by decide) .nil)⟩ .nil

theorem save_of_reworded_packer :
    ∃ tree', save (Tree.put ⟨[], []⟩ ["a"] (.file packer.canonicalText.toUTF8)) brokenPacker false =
      (.ok ⟨.description, ⟨"a"⟩, true, 29, 29⟩, tree') := by
  obtain ⟨_, saved⟩ := save_of_reworded reworded_packer
  have read : (Tree.put ⟨[], []⟩ ["a"] (.file packer.canonicalText.toUTF8)).readText
      brokenPacker.definitionFile = .ok packer.canonicalText :=
    Tree.readText_eq_ok.2 ⟨["a"], by rfl⟩
  have changed : packer.canonicalText ≠ brokenPacker.canonicalText := by
    rw [Tool.canonicalText, Tool.canonicalText, Ne, String.ofList_inj]
    decide +kernel
  have count : Text.lineCount packer.canonicalText.toList = 29 := by
    rw [Tool.canonicalText, String.toList_ofList, Text.lineCount_ended]
    decide +kernel
  have written : ∃ tree', (Tree.put ⟨[], []⟩ ["a"] (.file packer.canonicalText.toUTF8)).writeText
      brokenPacker.definitionFile brokenPacker.canonicalText = .ok tree' := ⟨_, by rfl⟩
  obtain ⟨tree', written⟩ := written
  refine ⟨tree', ?_⟩
  rw [saved _ false read, if_neg (by simp [changed]), written, count]
  rfl

end Saving

end Toolwright
