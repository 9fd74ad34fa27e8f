import Toolwright.Proofs.Description.Numbers
import Toolwright.Proofs.Json.Record
import Toolwright.Wrapper.Item

/-!
Reading canonical texts. Every entity is read back from its JSON tree as its normal form, its
numbers replaced by what they are read as, provided the tree is not nested too deeply. For a tool
whose numbers survive this is the round trip of its canonical text.
-/

namespace Toolwright

open Json

/-- No default of a property is or holds a floating-point number. -/
def Tool.Whole (t : Tool) : Prop := ∀ p ∈ Wrapper.allProperties t, p.default.tree.Whole

theorem forall_mem_optionalMember {Q : String × Json → Prop} {key : String} {value : Json} :
    (∀ m ∈ optionalMember key value, Q m) ↔ (value.isZero = false → Q (key, value)) := by
  unfold optionalMember
  split <;> simp_all

theorem Json.allNumbers_ofText? {P : Number → Prop} (text : Option String) :
    (ofText? text).AllNumbers P := by
  cases text <;> trivial

section Numbers

variable {P : Number → Prop}

theorem Property.allNumbers_toJson {p : Property} (h : p.default.tree.AllNumbers P) :
    p.toJson.AllNumbers P := by
  simp only [toJson, allNumbers_object, List.forall_mem_append, List.forall_mem_cons,
    forall_mem_optionalMember]
  simp [allNumbers_ofText?, h]

theorem allNumbers_propertiesJson {properties : List Property}
    (h : ∀ p ∈ properties, p.default.tree.AllNumbers P) :
    (propertiesJson properties).AllNumbers P := by
  rw [propertiesJson, allNumbers_array]
  intro item hi
  obtain ⟨p, hp, rfl⟩ := List.mem_map.1 hi
  exact Property.allNumbers_toJson (h p (List.mem_filter.1 hp).1)

theorem SettingsClass.allNumbers_toJson {c : SettingsClass}
    (h : ∀ p ∈ c.properties, p.default.tree.AllNumbers P) : c.toJson.AllNumbers P := by
  simp only [toJson, allNumbers_object, List.forall_mem_append, forall_mem_optionalMember]
  simp [allNumbers_ofText?, allNumbers_propertiesJson h]

theorem Task.allNumbers_toJson {t : Task}
    (h : ∀ p ∈ t.settings.properties, p.default.tree.AllNumbers P) : t.toJson.AllNumbers P := by
  simp only [toJson, allNumbers_object, List.forall_mem_append, List.forall_mem_cons,
    forall_mem_optionalMember]
  simp [allNumbers_ofText?, SettingsClass.allNumbers_toJson h]

theorem DataClass.allNumbers_toJson {d : DataClass}
    (h : ∀ p ∈ d.properties, p.default.tree.AllNumbers P) : d.toJson.AllNumbers P := by
  simp only [toJson, allNumbers_object, List.forall_mem_append, List.forall_mem_cons,
    forall_mem_optionalMember]
  simp [allNumbers_ofText?, allNumbers_propertiesJson h]

theorem Enumeration.allNumbers_toJson (e : Enumeration) : e.toJson.AllNumbers P := by
  simp only [toJson, allNumbers_object, List.forall_mem_append, List.forall_mem_cons,
    forall_mem_optionalMember]
  simp [allNumbers_ofText?]

theorem Tool.allNumbers_toJson {t : Tool}
    (h : ∀ p ∈ Wrapper.allProperties t, p.default.tree.AllNumbers P) : t.toJson.AllNumbers P := by
  have tasks : ∀ task ∈ t.tasks, task.toJson.AllNumbers P := fun task ht =>
    Task.allNumbers_toJson fun p hp =>
      h p (List.mem_append_left _ (List.mem_flatMap.2 ⟨task, ht, hp⟩))
  have data : ∀ d ∈ t.dataClasses, d.toJson.AllNumbers P := fun d hd =>
    DataClass.allNumbers_toJson fun p hp =>
      h p (List.mem_append_right _ (List.mem_flatMap.2 ⟨d, hd, hp⟩))
  simp only [toJson, allNumbers_object, List.forall_mem_append, List.forall_mem_cons,
    forall_mem_optionalMember]
  simp +contextual [allNumbers_ofText?, Reference.toJson, Enumeration.allNumbers_toJson,
    tasks, data]

end Numbers

theorem keeps_text (limit : Nat) (text : Option String) :
    Keeps (optionalText limit) (ofText? text) ((keptText text).map some) := by
  cases text with
  | none => rfl
  | some text =>
    by_cases empty : text = ""
    · simp [Keeps, keptText, ofText?, isZero, empty]
    · simp [Keeps, keptText, ofText?, isZero, empty, reads_optionalText]

theorem keeps_bool (limit : Nat) (b : Bool) :
    Keeps ((fun _ => Reader.bool : Nat → Reader Bool) limit) (.bool b)
      (if b then some true else none) := by
  cases b with
  | true => exact ⟨true, rfl, reads_bool true⟩
  | false => rfl

section Reading

variable {ρ : Number → Number}

theorem keeps_value {limit : Nat} {v : FreeValue}
    (h : v.tree.isZero = false → ReadableAs ρ limit v.tree) :
    Keeps (Reader.value limit) v.tree (if v.tree.isZero then none else some (v.mapNumbers ρ)) := by
  unfold Keeps
  split
  · rfl
  · rename_i present
    exact ⟨v.mapNumbers ρ, rfl, reads_value (h (by simpa using present))⟩

theorem keeps_list {α β : Type} {item : Nat → Reader α} {limit : Nat} {tree : β → Json} {f : β → α}
    {xs : List β}
    (h : (array (xs.map tree)).isZero = false → ReadableAs ρ limit (array (xs.map tree)))
    (hread : ∀ inner, ∀ x ∈ xs, ReadableAs ρ inner (tree x) → Reads (item inner) (tree x) (f x)) :
    Keeps (Reader.list item limit) (array (xs.map tree))
      (if xs.isEmpty then none else some (xs.map f)) := by
  cases xs with
  | nil => rfl
  | cons x xs =>
    have readable := h rfl
    obtain ⟨inner, rfl⟩ := readable.limit_pos (by simp [depth_array])
    have each : ∀ y ∈ x :: xs, ReadableAs ρ inner (tree y) := fun y hy =>
      readableAs_array.1 readable (tree y) (List.mem_map_of_mem hy)
    exact ⟨_, rfl, reads_list (fun y hy => hread inner y hy (each y hy))
      fun y hy => pretty_head (each y hy).numbers⟩

theorem join_map_some {α : Type} (a : Option α) : (a.map some).join = a := by
  cases a <;> rfl

theorem getD_kept {α β : Type} (f : β → α) (xs : List β) :
    (if xs.isEmpty then none else some (xs.map f)).getD [] = xs.map f := by
  cases xs <;> rfl

theorem getD_keptValue (v : FreeValue) :
    (if v.tree.isZero then none else some (v.mapNumbers ρ)).getD .null = v.tidied.mapNumbers ρ := by
  unfold FreeValue.tidied
  split <;> rfl

theorem getD_keptBool (b : Bool) : (if b then some true else none).getD false = b := by
  cases b <;> rfl

theorem Property.reads {limit : Nat} {p : Property} (settable : p.settable = true)
    (h : ReadableAs ρ limit p.toJson) :
    Reads (Property.read limit) p.toJson (p.tidied.mapNumbers ρ) := by
  obtain ⟨inner, rfl⟩ := h.limit_pos (by simp [toJson, depth_object])
  rw [toJson, readableAs_object] at h
  simp only [List.forall_mem_append, forall_mem_optionalMember] at h
  obtain ⟨⟨⟨⟨_, default⟩, _⟩, _⟩, _⟩ := h
  let named : Draft := { name := some p.name, type := some p.type }
  let valued : Draft := { named with
    default := if p.default.tree.isZero then none else some (p.default.mapNumbers ρ) }
  let formatted : Draft := { valued with format := (keptText p.format).map some }
  let helped : Draft := { formatted with help := (keptText p.help).map some }
  let last : Draft := { helped with secret := if p.secret then some true else none }
  have h₁ : form.Fills inner {} [("Name", .string p.name), ("Type", .string p.type)] named :=
    .append (.always rfl rfl rfl (reads_string p.name)) (.always rfl rfl rfl (reads_string p.type))
  have h₂ : form.Fills inner named (optionalMember "Default" p.default.tree) valued :=
    .optional (fun a r => { r with default := a }) rfl rfl rfl (fun _ => rfl) rfl
      (keeps_value default)
  have h₃ : form.Fills inner valued (optionalMember "Format" (ofText? p.format)) formatted :=
    .optional (fun a r => { r with format := a }) rfl rfl rfl (fun _ => rfl) rfl
      (keeps_text inner p.format)
  have h₄ : form.Fills inner formatted (optionalMember "Help" (ofText? p.help)) helped :=
    .optional (fun a r => { r with help := a }) rfl rfl rfl (fun _ => rfl) rfl
      (keeps_text inner p.help)
  have h₅ : form.Fills inner helped (optionalMember "Secret" (.bool p.secret)) last :=
    .optional (fun a r => { r with secret := a }) rfl rfl rfl (fun _ => rfl) rfl
      (keeps_bool inner p.secret)
  have complete : form.complete last = some (p.tidied.mapNumbers ρ) := by
    cases p
    cases settable
    simp [form, last, helped, formatted, valued, named, tidied, mapNumbers, getD_keptValue,
      getD_keptBool, join_map_some]
  exact Form.reads_record ((((h₁.append h₂).append h₃).append h₄).append h₅) rfl complete

theorem keeps_properties {limit : Nat} {properties : List Property}
    (h : (propertiesJson properties).isZero = false →
      ReadableAs ρ limit (propertiesJson properties)) :
    Keeps (Reader.list Property.read limit) (propertiesJson properties)
      (if (properties.filter (·.settable)).isEmpty then none
        else some ((properties.filter (·.settable)).map fun p => p.tidied.mapNumbers ρ)) :=
  keeps_list h fun _ _ hp readable => Property.reads (List.mem_filter.1 hp).2 readable

theorem SettingsClass.reads {limit : Nat} {c : SettingsClass} (h : ReadableAs ρ limit c.toJson) :
    Reads (SettingsClass.read limit) c.toJson (c.normal.mapNumbers ρ) := by
  obtain ⟨inner, rfl⟩ := h.limit_pos (by simp [toJson, depth_object])
  rw [toJson, readableAs_object] at h
  simp only [List.forall_mem_append, forall_mem_optionalMember] at h
  obtain ⟨_, properties⟩ := h
  let named : Draft := { name := (keptText c.name).map some }
  let helped : Draft := { named with help := (keptText c.help).map some }
  let last : Draft := { helped with
    properties := if (c.properties.filter (·.settable)).isEmpty then none
      else some ((c.properties.filter (·.settable)).map fun p => p.tidied.mapNumbers ρ) }
  have h₁ : form.Fills inner {} (optionalMember "Name" (ofText? c.name)) named :=
    .optional (fun a r => { r with name := a }) rfl rfl rfl (fun _ => rfl) rfl
      (keeps_text inner c.name)
  have h₂ : form.Fills inner named (optionalMember "Help" (ofText? c.help)) helped :=
    .optional (fun a r => { r with help := a }) rfl rfl rfl (fun _ => rfl) rfl
      (keeps_text inner c.help)
  have h₃ : form.Fills inner helped
      (optionalMember "Properties" (propertiesJson c.properties)) last :=
    .optional (fun a r => { r with properties := a }) rfl rfl rfl (fun _ => rfl) rfl
      (keeps_properties properties)
  have complete : form.complete last = some (c.normal.mapNumbers ρ) := by
    simp only [form, last, helped, named, normal, settableOnly, tidied, unwired, mapNumbers,
      join_map_some, getD_kept, List.map_map]
    rfl
  exact Form.reads_record ((h₁.append h₂).append h₃) rfl complete

theorem Task.reads {limit : Nat} {t : Task} (h : ReadableAs ρ limit t.toJson) :
    Reads (Task.read limit) t.toJson (t.normal.mapNumbers ρ) := by
  obtain ⟨inner, rfl⟩ := h.limit_pos (by simp [toJson, depth_object])
  rw [toJson, readableAs_object] at h
  simp only [List.forall_mem_append, forall_mem_optionalMember, List.forall_mem_singleton] at h
  obtain ⟨_, settings⟩ := h
  let marked : Draft := { postfixText := (keptText t.postfixText).map some }
  let helped : Draft := { marked with help := (keptText t.help).map some }
  let led : Draft := { helped with definitiveArgument := (keptText t.definitiveArgument).map some }
  let last : Draft := { led with settings := some (t.settings.normal.mapNumbers ρ) }
  have h₁ : form.Fills inner {} (optionalMember "Postfix" (ofText? t.postfixText)) marked :=
    .optional (fun a r => { r with postfixText := a }) rfl rfl rfl (fun _ => rfl) rfl
      (keeps_text inner t.postfixText)
  have h₂ : form.Fills inner marked (optionalMember "Help" (ofText? t.help)) helped :=
    .optional (fun a r => { r with help := a }) rfl rfl rfl (fun _ => rfl) rfl
      (keeps_text inner t.help)
  have h₃ : form.Fills inner helped
      (optionalMember "DefinitiveArgument" (ofText? t.definitiveArgument)) led :=
    .optional (fun a r => { r with definitiveArgument := a }) rfl rfl rfl (fun _ => rfl) rfl
      (keeps_text inner t.definitiveArgument)
  have h₄ : form.Fills inner led [("SettingsClass", t.settings.toJson)] last :=
    .always rfl rfl rfl (SettingsClass.reads settings)
  have complete : form.complete last = some (t.normal.mapNumbers ρ) := by
    simp [form, last, led, helped, marked, normal, settableOnly, tidied, unwired, mapNumbers,
      join_map_some, SettingsClass.normal]
  exact Form.reads_record (((h₁.append h₂).append h₃).append h₄) rfl complete

theorem DataClass.reads {limit : Nat} {d : DataClass} (h : ReadableAs ρ limit d.toJson) :
    Reads (DataClass.read limit) d.toJson (d.normal.mapNumbers ρ) := by
  obtain ⟨inner, rfl⟩ := h.limit_pos (by simp [toJson, depth_object])
  rw [toJson, readableAs_object] at h
  simp only [List.forall_mem_append, forall_mem_optionalMember] at h
  obtain ⟨_, properties⟩ := h
  let named : Draft := { name := some d.name }
  let helped : Draft := { named with help := (keptText d.help).map some }
  let last : Draft := { helped with
    properties := if (d.properties.filter (·.settable)).isEmpty then none
      else some ((d.properties.filter (·.settable)).map fun p => p.tidied.mapNumbers ρ) }
  have h₁ : form.Fills inner {} [("Name", .string d.name)] named :=
    .always rfl rfl rfl (reads_string d.name)
  have h₂ : form.Fills inner named (optionalMember "Help" (ofText? d.help)) helped :=
    .optional (fun a r => { r with help := a }) rfl rfl rfl (fun _ => rfl) rfl
      (keeps_text inner d.help)
  have h₃ : form.Fills inner helped
      (optionalMember "Properties" (propertiesJson d.properties)) last :=
    .optional (fun a r => { r with properties := a }) rfl rfl rfl (fun _ => rfl) rfl
      (keeps_properties properties)
  have complete : form.complete last = some (d.normal.mapNumbers ρ) := by
    simp only [form, last, helped, named, normal, settableOnly, tidied, unwired, mapNumbers,
      join_map_some, getD_kept, List.map_map]
    rfl
  exact Form.reads_record ((h₁.append h₂).append h₃) rfl complete

theorem Enumeration.reads {limit : Nat} {e : Enumeration} (h : ReadableAs ρ limit e.toJson) :
    Reads (Enumeration.read limit) e.toJson e.normal := by
  obtain ⟨inner, rfl⟩ := h.limit_pos (by simp [toJson, depth_object])
  rw [toJson, readableAs_object] at h
  simp only [List.forall_mem_append, forall_mem_optionalMember] at h
  obtain ⟨_, values⟩ := h
  let named : Draft := { name := some e.name }
  let helped : Draft := { named with help := (keptText e.help).map some }
  let last : Draft := { helped with
    values := if e.values.isEmpty then none else some (e.values.map id) }
  have h₁ : form.Fills inner {} [("Name", .string e.name)] named :=
    .always rfl rfl rfl (reads_string e.name)
  have h₂ : form.Fills inner named (optionalMember "Help" (ofText? e.help)) helped :=
    .optional (fun a r => { r with help := a }) rfl rfl rfl (fun _ => rfl) rfl
      (keeps_text inner e.help)
  have h₃ : form.Fills inner helped
      (optionalMember "Values" (.array (e.values.map .string))) last :=
    .optional (fun a r => { r with values := a }) rfl rfl rfl (fun _ => rfl) rfl
      (keeps_list values fun _ value _ _ => reads_string value)
  have complete : form.complete last = some e.normal := by
    have values : (if e.values.isEmpty then none else some (e.values.map id)).getD [] =
        e.values := by
      rw [getD_kept, List.map_id]
    simp only [form, last, helped, named, normal, tidied, unwired, join_map_some, values]
    rfl
  exact Form.reads_record ((h₁.append h₂).append h₃) rfl complete

theorem Reference.reads (limit : Nat) (r : Reference) :
    Reads (Reference.read limit) r.toJson r := by
  intro gap level rest blanks ends
  have text := reads_string r.text gap level rest blanks ends
  simp only [Reference.read, Reference.toJson, text, bind, Except.bind]

theorem Tool.reads {limit : Nat} {t : Tool} (h : ReadableAs ρ limit t.toJson) :
    Reads (Tool.read limit) t.toJson (t.normal.mapNumbers ρ) := by
  obtain ⟨inner, rfl⟩ := h.limit_pos (by simp [toJson, depth_object])
  rw [toJson, readableAs_object] at h
  simp only [List.forall_mem_append, forall_mem_optionalMember] at h
  obtain ⟨⟨⟨⟨_, references⟩, tasks⟩, dataClasses⟩, enumerations⟩ := h
  -- the record while it is filled, in the order in which members are written
  let named : Draft := { name := some t.name }
  let helped : Draft := { named with help := (keptText t.help).map some }
  let addressed : Draft := { helped with officialUrl := (keptText t.officialUrl).map some }
  let packed : Draft := { addressed with packageId := (keptText t.packageId).map some }
  let runnable : Draft := { packed with
    packageExecutable := (keptText t.packageExecutable).map some }
  let hosted : Draft := { runnable with
    environmentExecutable := (keptText t.environmentExecutable).map some }
  let sourced : Draft := { hosted with
    references := if t.references.isEmpty then none else some (t.references.map id) }
  let working : Draft := { sourced with
    tasks := if t.tasks.isEmpty then none
      else some (t.tasks.map fun task => task.normal.mapNumbers ρ) }
  let classed : Draft := { working with
    dataClasses := if t.dataClasses.isEmpty then none
      else some (t.dataClasses.map fun d => d.normal.mapNumbers ρ) }
  let last : Draft := { classed with
    enumerations := if t.enumerations.isEmpty then none
      else some (t.enumerations.map Enumeration.normal) }
  have h₁ : form.Fills inner {} [("Name", .string t.name)] named :=
    .always rfl rfl rfl (reads_string t.name)
  have h₂ : form.Fills inner named (optionalMember "Help" (ofText? t.help)) helped :=
    .optional (fun a r => { r with help := a }) rfl rfl rfl (fun _ => rfl) rfl
      (keeps_text inner t.help)
  have h₃ : form.Fills inner helped (optionalMember "OfficialUrl" (ofText? t.officialUrl))
      addressed :=
    .optional (fun a r => { r with officialUrl := a }) rfl rfl rfl (fun _ => rfl) rfl
      (keeps_text inner t.officialUrl)
  have h₄ : form.Fills inner addressed (optionalMember "PackageId" (ofText? t.packageId)) packed :=
    .optional (fun a r => { r with packageId := a }) rfl rfl rfl (fun _ => rfl) rfl
      (keeps_text inner t.packageId)
  have h₅ : form.Fills inner packed
      (optionalMember "PackageExecutable" (ofText? t.packageExecutable)) runnable :=
    .optional (fun a r => { r with packageExecutable := a }) rfl rfl rfl (fun _ => rfl) rfl
      (keeps_text inner t.packageExecutable)
  have h₆ : form.Fills inner runnable
      (optionalMember "EnvironmentExecutable" (ofText? t.environmentExecutable)) hosted :=
    .optional (fun a r => { r with environmentExecutable := a }) rfl rfl rfl (fun _ => rfl) rfl
      (keeps_text inner t.environmentExecutable)
  have h₇ : form.Fills inner hosted
      (optionalMember "References" (.array (t.references.map Reference.toJson))) sourced :=
    .optional (fun a r => { r with references := a }) rfl rfl rfl (fun _ => rfl) rfl
      (keeps_list references fun limit r _ _ => Reference.reads limit r)
  have h₈ : form.Fills inner sourced
      (optionalMember "Tasks" (.array (t.tasks.map Task.toJson))) working :=
    .optional (fun a r => { r with tasks := a }) rfl rfl rfl (fun _ => rfl) rfl
      (keeps_list tasks fun _ _ _ readable => Task.reads readable)
  have h₉ : form.Fills inner working
      (optionalMember "DataClasses" (.array (t.dataClasses.map DataClass.toJson))) classed :=
    .optional (fun a r => { r with dataClasses := a }) rfl rfl rfl (fun _ => rfl) rfl
      (keeps_list dataClasses fun _ _ _ readable => DataClass.reads readable)
  have h₁₀ : form.Fills inner classed
      (optionalMember "Enumerations" (.array (t.enumerations.map Enumeration.toJson))) last :=
    .optional (fun a r => { r with enumerations := a }) rfl rfl rfl (fun _ => rfl) rfl
      (keeps_list enumerations fun _ _ _ readable => Enumeration.reads readable)
  have same : (if t.references.isEmpty then none else some (t.references.map id)).getD [] =
      t.references := by
    rw [getD_kept, List.map_id]
  have complete : form.complete last = some (t.normal.mapNumbers ρ) := by
    simp only [form, last, classed, working, sourced, hosted, runnable, packed, addressed, helped,
      named, normal_parts, mapNumbers, join_map_some, getD_kept, same, List.map_map]
    rfl
  exact Form.reads_record (((((((((h₁.append h₂).append h₃).append h₄).append h₅).append h₆).append
    h₇).append h₈).append h₉).append h₁₀) rfl complete

theorem Tool.parse_readableAs {t : Tool} (h : ReadableAs ρ Reader.nestingLimit t.toJson) :
    Tool.parse t.canonicalText = .ok (t.normal.mapNumbers ρ) := by
  have read := Tool.reads h [] 0 ['\n'] (by simp) (endsValue_feed [])
  have none_left : Reader.skipBlank ['\n'] = [] := by decide
  rw [List.nil_append] at read
  simp only [Tool.parse, Tool.canonicalText, String.toList_ofList, Reader.readAll, read, none_left]

end Reading

theorem Tool.readable {t : Tool} (whole : t.Whole)
    (depth_le : t.toJson.depth ≤ Reader.nestingLimit) :
    Readable Reader.nestingLimit t.toJson :=
  ⟨(allNumbers_toJson whole).mono fun _ => Number.IsWhole.legible, depth_le⟩

theorem Tool.parse_readable {t : Tool} (h : Readable Reader.nestingLimit t.toJson) :
    Tool.parse t.canonicalText = .ok t.normal := by
  rw [parse_readableAs h.same, mapNumbers_id]

/-- Parsing the canonical text of a tool gives its normal form, so the tool comes back exactly when
nothing in it is left out. -/
theorem Tool.parse_canonicalText {t : Tool} (whole : t.Whole)
    (depth_le : t.toJson.depth ≤ Reader.nestingLimit) :
    Tool.parse t.canonicalText = .ok t.normal ∧
      (Tool.parse t.canonicalText = .ok t ↔ t.IsNormal) := by
  have parsed := parse_readable (readable whole depth_le)
  refine ⟨parsed, ?_⟩
  rw [parsed, Except.ok.injEq]
  exact normal_eq_self

/-- A tool with a read-only property, empty texts, a zero default and zeros inside a default. -/
def Tool.untidy : Tool where
  name := ""
  help := some ""
  officialUrl := some "https://example.test"
  references := [⟨""⟩]
  tasks := [{
    postfixText := some ""
    settings := {
      name := some "Run"
      properties := [
        { name := "exitCode", type := "int", settable := false },
        { name := "level", type := "int", default := ⟨.number (.natural 0), trivial⟩ },
        { name := "extra", type := "json",
          default := ⟨.object [("zeros", .array [.bool false, .null])],
            ⟨nofun, trivial⟩, ⟨trivial, trivial, trivial⟩, trivial⟩ }] } }]
  definitionFile := ⟨"tool.json"⟩

theorem Tool.parse_canonicalText_untidy :
    Tool.parse Tool.untidy.canonicalText = .ok Tool.untidy.normal ∧ ¬ Tool.untidy.IsNormal := by
  have whole : Tool.untidy.Whole := by
    simp [Tool.Whole, Tool.untidy, Wrapper.allProperties, Json.Whole, FreeValue.null,
      Number.IsWhole, Number.toInt?]
  have depth_le : Tool.untidy.toJson.depth ≤ Reader.nestingLimit := by
    have eight : Tool.untidy.toJson.depth = 8 := by rfl
    rw [eight]
    decide
  have parsed := Tool.parse_canonicalText whole depth_le
  exact ⟨parsed.1, fun normal => normal.help rfl⟩

end Toolwright
