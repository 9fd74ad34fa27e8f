import Toolwright.Description.Canonical

/-!
The normal form of a description: what is left of it in its canonical text. Three things go: the
properties that are not settable, the texts and defaults that are there but say nothing, and what a
tool knows of its place and its parts of their owners. `IsNormal` says part by part that nothing of
that kind is there, and such tools are exactly those that are their own normal form.
-/

namespace Toolwright

open Json

def keptText : Option String → Option String
  | none => none
  | some text => if text.isEmpty then none else some text

/-- A value that is null when it is zero. Zeros inside it stay. -/
def Json.FreeValue.tidied (v : FreeValue) : FreeValue := if v.tree.isZero then .null else v

def Property.tidied (p : Property) : Property :=
  { p with default := p.default.tidied, format := keptText p.format, help := keptText p.help }

def SettingsClass.tidied (c : SettingsClass) : SettingsClass :=
  { c with
    name := keptText c.name
    help := keptText c.help
    properties := c.properties.map Property.tidied }

def Task.tidied (t : Task) : Task :=
  { t with
    postfixText := keptText t.postfixText
    help := keptText t.help
    definitiveArgument := keptText t.definitiveArgument
    settings := t.settings.tidied }

def DataClass.tidied (d : DataClass) : DataClass :=
  { d with help := keptText d.help, properties := d.properties.map Property.tidied }

def Enumeration.tidied (e : Enumeration) : Enumeration := { e with help := keptText e.help }

/-- The tool with every empty text absent and every zero default null. -/
def Tool.tidied (t : Tool) : Tool :=
  { t with
    help := keptText t.help
    officialUrl := keptText t.officialUrl
    packageId := keptText t.packageId
    packageExecutable := keptText t.packageExecutable
    environmentExecutable := keptText t.environmentExecutable
    tasks := t.tasks.map Task.tidied
    dataClasses := t.dataClasses.map DataClass.tidied
    enumerations := t.enumerations.map Enumeration.tidied }

def SettingsClass.settableOnly (c : SettingsClass) : SettingsClass :=
  { c with properties := c.properties.filter (·.settable) }

def Task.settableOnly (t : Task) : Task := { t with settings := t.settings.settableOnly }

def DataClass.settableOnly (d : DataClass) : DataClass :=
  { d with properties := d.properties.filter (·.settable) }

/-- The tool without the properties that can only be looked at. -/
def Tool.settableOnly (t : Tool) : Tool :=
  { t with
    tasks := t.tasks.map Task.settableOnly
    dataClasses := t.dataClasses.map DataClass.settableOnly }

def SettingsClass.unwired (c : SettingsClass) : SettingsClass :=
  { c with tool := none, task := none }

def Task.unwired (t : Task) : Task := { t with settings := t.settings.unwired, tool := none }

def DataClass.unwired (d : DataClass) : DataClass := { d with tool := none }

def Enumeration.unwired (e : Enumeration) : Enumeration := { e with tool := none }

/-- The tool without what loading adds to it. -/
def Tool.unwired (t : Tool) : Tool :=
  { t with
    tasks := t.tasks.map Task.unwired
    dataClasses := t.dataClasses.map DataClass.unwired
    enumerations := t.enumerations.map Enumeration.unwired
    definitionFile := ⟨""⟩
    generationBase := ⟨""⟩
    repositoryUrl := "" }

def SettingsClass.normal (c : SettingsClass) : SettingsClass := c.settableOnly.tidied.unwired

def Task.normal (t : Task) : Task := t.settableOnly.tidied.unwired

def DataClass.normal (d : DataClass) : DataClass := d.settableOnly.tidied.unwired

def Enumeration.normal (e : Enumeration) : Enumeration := e.tidied.unwired

/-- What the canonical text of a tool keeps of it. -/
def Tool.normal (t : Tool) : Tool := t.settableOnly.tidied.unwired

def Present (text : Option String) : Prop := text ≠ some ""

structure Property.IsNormal (p : Property) : Prop where
  settable : p.settable = true
  default : p.default.tree.isZero = true → p.default = .null
  format : Present p.format
  help : Present p.help

structure SettingsClass.IsNormal (c : SettingsClass) : Prop where
  name : Present c.name
  help : Present c.help
  properties : ∀ p ∈ c.properties, p.IsNormal
  tool : c.tool = none
  task : c.task = none

structure Task.IsNormal (t : Task) : Prop where
  postfixText : Present t.postfixText
  help : Present t.help
  definitiveArgument : Present t.definitiveArgument
  settings : t.settings.IsNormal
  tool : t.tool = none

structure DataClass.IsNormal (d : DataClass) : Prop where
  help : Present d.help
  properties : ∀ p ∈ d.properties, p.IsNormal
  tool : d.tool = none

structure Enumeration.IsNormal (e : Enumeration) : Prop where
  help : Present e.help
  tool : e.tool = none

structure Tool.IsNormal (t : Tool) : Prop where
  help : Present t.help
  officialUrl : Present t.officialUrl
  packageId : Present t.packageId
  packageExecutable : Present t.packageExecutable
  environmentExecutable : Present t.environmentExecutable
  tasks : ∀ task ∈ t.tasks, task.IsNormal
  dataClasses : ∀ d ∈ t.dataClasses, d.IsNormal
  enumerations : ∀ e ∈ t.enumerations, e.IsNormal
  definitionFile : t.definitionFile = ⟨""⟩
  generationBase : t.generationBase = ⟨""⟩
  repositoryUrl : t.repositoryUrl = ""

theorem keptText_eq_self {text : Option String} : keptText text = text ↔ Present text := by
  cases text with
  | none => simp [keptText, Present]
  | some text =>
    by_cases empty : text = ""
    · simp [keptText, Present, empty]
    · simp [keptText, Present, empty]

theorem Json.FreeValue.tidied_eq_self {v : FreeValue} :
    v.tidied = v ↔ (v.tree.isZero = true → v = .null) := by
  unfold tidied
  split
  · rename_i zero
    exact ⟨fun h _ => h.symm, fun h => (h zero).symm⟩
  · rename_i present
    exact ⟨fun _ zero => absurd zero present, fun _ => rfl⟩

theorem map_eq_self {α : Type} {f : α → α} {xs : List α} :
    xs.map f = xs ↔ ∀ x ∈ xs, f x = x := by
  have pointwise := List.map_inj_left (l := xs) (f := f) (g := id)
  rwa [List.map_id] at pointwise

theorem tidied_filter_eq_self {properties : List Property} :
    (properties.filter (·.settable)).map Property.tidied = properties ↔
      ∀ p ∈ properties, p.settable = true ∧ p.tidied = p := by
  constructor
  · intro same p hp
    have settable : ∀ p ∈ properties, p.settable = true := by
      intro p hp
      rw [← same] at hp
      obtain ⟨q, hq, rfl⟩ := List.mem_map.1 hp
      exact (List.mem_filter.1 hq).2
    rw [List.filter_eq_self.2 settable] at same
    exact ⟨settable p hp, map_eq_self.1 same p hp⟩
  · intro each
    rw [List.filter_eq_self.2 fun p hp => (each p hp).1]
    exact map_eq_self.2 fun p hp => (each p hp).2

theorem Property.isNormal_iff {p : Property} :
    p.IsNormal ↔ p.settable = true ∧ p.tidied = p := by
  cases p
  simp only [tidied, mk.injEq, true_and, and_true, FreeValue.tidied_eq_self, keptText_eq_self]
  exact ⟨fun ⟨s, d, f, h⟩ => ⟨s, d, f, h⟩, fun ⟨s, d, f, h⟩ => ⟨s, d, f, h⟩⟩

theorem SettingsClass.normal_eq_self {c : SettingsClass} : c.normal = c ↔ c.IsNormal := by
  cases c
  simp only [normal, settableOnly, tidied, unwired, mk.injEq, keptText_eq_self,
    tidied_filter_eq_self, ← Property.isNormal_iff]
  exact ⟨fun ⟨n, h, p, t, i⟩ => ⟨n, h, p, t.symm, i.symm⟩,
    fun ⟨n, h, p, t, i⟩ => ⟨n, h, p, t.symm, i.symm⟩⟩

theorem Task.normal_eq_self {t : Task} : t.normal = t ↔ t.IsNormal := by
  cases t with
  | mk postfixText help definitiveArgument settings tool =>
    have inner : settings.settableOnly.tidied.unwired = settings ↔ settings.IsNormal :=
      SettingsClass.normal_eq_self
    simp only [normal, settableOnly, tidied, unwired, mk.injEq, keptText_eq_self, inner]
    exact ⟨fun ⟨p, h, d, s, t⟩ => ⟨p, h, d, s, t.symm⟩, fun ⟨p, h, d, s, t⟩ => ⟨p, h, d, s, t.symm⟩⟩

theorem DataClass.normal_eq_self {d : DataClass} : d.normal = d ↔ d.IsNormal := by
  cases d
  simp only [normal, settableOnly, tidied, unwired, mk.injEq, true_and, keptText_eq_self,
    tidied_filter_eq_self, ← Property.isNormal_iff]
  exact ⟨fun ⟨h, p, t⟩ => ⟨h, p, t.symm⟩, fun ⟨h, p, t⟩ => ⟨h, p, t.symm⟩⟩

theorem Enumeration.normal_eq_self {e : Enumeration} : e.normal = e ↔ e.IsNormal := by
  cases e
  simp only [normal, tidied, unwired, mk.injEq, true_and, keptText_eq_self]
  exact ⟨fun ⟨h, t⟩ => ⟨h, t.symm⟩, fun ⟨h, t⟩ => ⟨h, t.symm⟩⟩

theorem Tool.normal_parts (t : Tool) :
    t.normal = {
      name := t.name
      help := keptText t.help
      officialUrl := keptText t.officialUrl
      packageId := keptText t.packageId
      packageExecutable := keptText t.packageExecutable
      environmentExecutable := keptText t.environmentExecutable
      references := t.references
      tasks := t.tasks.map Task.normal
      dataClasses := t.dataClasses.map DataClass.normal
      enumerations := t.enumerations.map Enumeration.normal } := by
  simp only [normal, settableOnly, tidied, unwired, List.map_map]
  rfl

theorem Tool.normal_eq_self {t : Tool} : t.normal = t ↔ t.IsNormal := by
  rw [normal_parts]
  cases t
  simp only [mk.injEq, true_and, keptText_eq_self, map_eq_self, Task.normal_eq_self,
    DataClass.normal_eq_self, Enumeration.normal_eq_self]
  exact ⟨fun ⟨a, b, c, d, e, f, g, h, i, j, k⟩ => ⟨a, b, c, d, e, f, g, h, i.symm, j.symm, k.symm⟩,
    fun ⟨a, b, c, d, e, f, g, h, i, j, k⟩ => ⟨a, b, c, d, e, f, g, h, i.symm, j.symm, k.symm⟩⟩

theorem apply_keptText {α : Type} {f : Option String → α} (same : f (some "") = f none)
    (text : Option String) : f (keptText text) = f text := by
  cases text with
  | none => rfl
  | some text =>
    by_cases empty : text = ""
    · rw [empty]
      exact same.symm
    · simp [keptText, empty]

theorem optionalMember_keptText (key : String) (text : Option String) :
    optionalMember key (ofText? (keptText text)) = optionalMember key (ofText? text) :=
  apply_keptText (f := fun text => optionalMember key (ofText? text)) rfl text

theorem optionalMember_tidied (key : String) (v : FreeValue) :
    optionalMember key v.tidied.tree = optionalMember key v.tree := by
  unfold FreeValue.tidied
  split
  · rename_i zero
    rw [optionalMember, optionalMember, if_pos zero]
    rfl
  · rfl

theorem Property.toJson_tidied (p : Property) : p.tidied.toJson = p.toJson := by
  simp only [toJson, tidied, optionalMember_tidied, optionalMember_keptText]

theorem propertiesJson_tidied (properties : List Property) :
    propertiesJson (properties.map Property.tidied) = propertiesJson properties := by
  have same : Property.toJson ∘ Property.tidied = Property.toJson := funext Property.toJson_tidied
  have kept : Property.isEmitted ∘ Property.tidied = Property.isEmitted := rfl
  simp only [propertiesJson, List.filter_map, List.map_map, same, kept]

theorem propertiesJson_settable (properties : List Property) :
    propertiesJson (properties.filter (·.settable)) = propertiesJson properties := by
  simp only [propertiesJson, Property.isEmitted, List.filter_filter, Bool.and_self]

theorem SettingsClass.toJson_normal (c : SettingsClass) : c.normal.toJson = c.toJson := by
  simp only [toJson, normal, settableOnly, tidied, unwired, optionalMember_keptText,
    propertiesJson_tidied, propertiesJson_settable]

theorem Task.toJson_normal (t : Task) : t.normal.toJson = t.toJson := by
  have settings : t.settings.settableOnly.tidied.unwired.toJson = t.settings.toJson :=
    SettingsClass.toJson_normal t.settings
  simp only [toJson, normal, settableOnly, tidied, unwired, optionalMember_keptText, settings]

theorem DataClass.toJson_normal (d : DataClass) : d.normal.toJson = d.toJson := by
  simp only [toJson, normal, settableOnly, tidied, unwired, optionalMember_keptText,
    propertiesJson_tidied, propertiesJson_settable]

theorem Enumeration.toJson_normal (e : Enumeration) : e.normal.toJson = e.toJson := by
  simp only [toJson, normal, tidied, unwired, optionalMember_keptText]

theorem Tool.toJson_normal (t : Tool) : t.normal.toJson = t.toJson := by
  have tasks : Task.toJson ∘ Task.normal = Task.toJson := funext Task.toJson_normal
  have data : DataClass.toJson ∘ DataClass.normal = DataClass.toJson :=
    funext DataClass.toJson_normal
  have enums : Enumeration.toJson ∘ Enumeration.normal = Enumeration.toJson :=
    funext Enumeration.toJson_normal
  rw [normal_parts]
  simp only [toJson, optionalMember_keptText, List.map_map, tasks, data, enums]

end Toolwright
