import Mathlib.Data.List.Nodup
import Toolwright.Proofs.Description.Numbers
import Toolwright.Proofs.Json.Pointer

/-!
Layouts of entities. Each kind of entity has `slots`, one for each member it can have, in their
order: the required ones are always written, the others when their value is not zero. Clearing a
slot leaves out its member and no other; and it is told from what is read whether a member was
there, whatever its numbers are read as.
-/

namespace Toolwright

open Json

inductive EntityKind where
  | tool
  | task
  | settings
  | dataClass
  | enumeration
  | property

abbrev EntityKind.Entity : EntityKind → Type
  | .tool => Tool
  | .task => Task
  | .settings => SettingsClass
  | .dataClass => DataClass
  | .enumeration => Enumeration
  | .property => Property

/-- A member that an entity can have, and how an entity is kept from having it. -/
structure Slot (α : Type) where
  key : String
  required : Bool
  value : α → Json
  clear : α → α

namespace EntityKind

def toJson : (k : EntityKind) → k.Entity → Json
  | .tool => Tool.toJson
  | .task => Task.toJson
  | .settings => SettingsClass.toJson
  | .dataClass => DataClass.toJson
  | .enumeration => Enumeration.toJson
  | .property => Property.toJson

/-- What is read where the entity was written and `ρ` tells how numbers are read. -/
def readAs (ρ : Number → Number) : (k : EntityKind) → k.Entity → k.Entity
  | .tool, t => t.normal.mapNumbers ρ
  | .task, t => t.normal.mapNumbers ρ
  | .settings, c => c.normal.mapNumbers ρ
  | .dataClass, d => d.normal.mapNumbers ρ
  | .enumeration, e => e.normal
  | .property, p => p.tidied.mapNumbers ρ

/-- The keys of all members, in the order in which they are written. -/
def keys : EntityKind → List String
  | .tool => ["Name", "Help", "OfficialUrl", "PackageId", "PackageExecutable",
      "EnvironmentExecutable", "References", "Tasks", "DataClasses", "Enumerations"]
  | .task => ["Postfix", "Help", "DefinitiveArgument", "SettingsClass"]
  | .settings => ["Name", "Help", "Properties"]
  | .dataClass => ["Name", "Help", "Properties"]
  | .enumeration => ["Name", "Help", "Values"]
  | .property => ["Name", "Type", "Default", "Format", "Help", "Secret"]

def slots : (k : EntityKind) → List (Slot k.Entity)
  | .tool => [
    ⟨"Name", true, fun t => .string t.name, id⟩,
    ⟨"Help", false, fun t => ofText? t.help, fun t => { t with help := none }⟩,
    ⟨"OfficialUrl", false, fun t => ofText? t.officialUrl, fun t => { t with officialUrl := none }⟩,
    ⟨"PackageId", false, fun t => ofText? t.packageId, fun t => { t with packageId := none }⟩,
    ⟨"PackageExecutable", false, fun t => ofText? t.packageExecutable,
      fun t => { t with packageExecutable := none }⟩,
    ⟨"EnvironmentExecutable", false, fun t => ofText? t.environmentExecutable,
      fun t => { t with environmentExecutable := none }⟩,
    ⟨"References", false, fun t => .array (t.references.map Reference.toJson),
      fun t => { t with references := [] }⟩,
    ⟨"Tasks", false, fun t => .array (t.tasks.map Task.toJson), fun t => { t with tasks := [] }⟩,
    ⟨"DataClasses", false, fun t => .array (t.dataClasses.map DataClass.toJson),
      fun t => { t with dataClasses := [] }⟩,
    ⟨"Enumerations", false, fun t => .array (t.enumerations.map Enumeration.toJson),
      fun t => { t with enumerations := [] }⟩]
  | .task => [
    ⟨"Postfix", false, fun t => ofText? t.postfixText, fun t => { t with postfixText := none }⟩,
    ⟨"Help", false, fun t => ofText? t.help, fun t => { t with help := none }⟩,
    ⟨"DefinitiveArgument", false, fun t => ofText? t.definitiveArgument,
      fun t => { t with definitiveArgument := none }⟩,
    ⟨"SettingsClass", true, fun t => t.settings.toJson, id⟩]
  | .settings => [
    ⟨"Name", false, fun c => ofText? c.name, fun c => { c with name := none }⟩,
    ⟨"Help", false, fun c => ofText? c.help, fun c => { c with help := none }⟩,
    ⟨"Properties", false, fun c => propertiesJson c.properties,
      fun c => { c with properties := [] }⟩]
  | .dataClass => [
    ⟨"Name", true, fun d => .string d.name, id⟩,
    ⟨"Help", false, fun d => ofText? d.help, fun d => { d with help := none }⟩,
    ⟨"Properties", false, fun d => propertiesJson d.properties,
      fun d => { d with properties := [] }⟩]
  | .enumeration => [
    ⟨"Name", true, fun e => .string e.name, id⟩,
    ⟨"Help", false, fun e => ofText? e.help, fun e => { e with help := none }⟩,
    ⟨"Values", false, fun e => .array (e.values.map .string), fun e => { e with values := [] }⟩]
  | .property => [
    ⟨"Name", true, fun p => .string p.name, id⟩,
    ⟨"Type", true, fun p => .string p.type, id⟩,
    ⟨"Default", false, fun p => p.default.tree, fun p => { p with default := .null }⟩,
    ⟨"Format", false, fun p => ofText? p.format, fun p => { p with format := none }⟩,
    ⟨"Help", false, fun p => ofText? p.help, fun p => { p with help := none }⟩,
    ⟨"Secret", false, fun p => .bool p.secret, fun p => { p with secret := false }⟩]

end EntityKind

namespace Slot

variable {α : Type}

def isWritten (s : Slot α) (a : α) : Bool := s.required || !(s.value a).isZero

def written (slots : List (Slot α)) (a : α) : List (String × Json) :=
  (slots.filter (·.isWritten a)).map fun s => (s.key, s.value a)

theorem written_cons (s : Slot α) (more : List (Slot α)) (a : α) :
    written (s :: more) a =
      (if s.required then [(s.key, s.value a)] else optionalMember s.key (s.value a)) ++
        written more a := by
  unfold written optionalMember
  cases required : s.required <;> cases zero : (s.value a).isZero <;>
    simp [isWritten, required, zero]

theorem written_nil (a : α) : written [] a = [] := rfl

end Slot

namespace EntityKind

theorem map_key_slots (k : EntityKind) : k.slots.map (·.key) = k.keys := by
  cases k <;> rfl

theorem nodup_keys (k : EntityKind) : k.keys.Nodup := by
  cases k <;> decide

theorem toJson_eq (k : EntityKind) (e : k.Entity) :
    k.toJson e = .object (Slot.written k.slots e) := by
  cases k <;>
    simp [toJson, slots, Slot.written_cons, Slot.written_nil, Tool.toJson, Task.toJson,
      SettingsClass.toJson, DataClass.toJson, Enumeration.toJson, Property.toJson]

theorem isZero_clear (k : EntityKind) (e : k.Entity) :
    ∀ s ∈ k.slots, s.required = false → (s.value (s.clear e)).isZero = true := by
  cases k <;> simp [slots, ofText?, isZero, propertiesJson, FreeValue.null]

theorem value_clear (k : EntityKind) (e : k.Entity) :
    ∀ s ∈ k.slots, ∀ other ∈ k.slots, other.key ≠ s.key →
      other.value (s.clear e) = other.value e := by
  cases k <;> simp [slots]

theorem eq_of_key {k : EntityKind} {s other : Slot k.Entity} (hs : s ∈ k.slots)
    (ho : other ∈ k.slots) (same : other.key = s.key) : other = s := by
  have nodup : (k.slots.map (·.key)).Nodup := map_key_slots k ▸ nodup_keys k
  exact List.inj_on_of_nodup_map nodup ho hs same

theorem toJson_clear {k : EntityKind} (e : k.Entity) {s : Slot k.Entity} (hs : s ∈ k.slots)
    (optional : s.required = false) :
    k.toJson (s.clear e) = (k.toJson e).dropMember s.key := by
  have kept : ∀ other ∈ k.slots,
      other.isWritten (s.clear e) = ((other.key != s.key) && other.isWritten e) := by
    intro other ho
    by_cases same : other.key = s.key
    · obtain rfl := eq_of_key hs ho same
      simp [Slot.isWritten, optional, isZero_clear k e other hs optional]
    · have value := value_clear k e s hs other ho same
      simp [Slot.isWritten, value, same]
  rw [toJson_eq, toJson_eq, dropMember, Slot.written, Slot.written, List.filter_congr kept,
    List.filter_map, List.filter_filter]
  congr 1
  refine List.map_congr_left fun other ho => ?_
  obtain ⟨among, written⟩ := List.mem_filter.1 ho
  have apart : other.key ≠ s.key := by
    intro same
    simp [same] at written
  rw [value_clear k e s hs other among apart]

end EntityKind

/-- Null, false and the empty texts and containers. Numbers are none of these. -/
def Json.isVoid : Json → Bool
  | .null => true
  | .bool b => !b
  | .number _ => false
  | .string s => s.isEmpty
  | .array items => items.isEmpty
  | .object members => members.isEmpty

theorem Json.isVoid_keptText (text : Option String) :
    (ofText? (keptText text)).isVoid = (ofText? text).isZero := by
  cases text with
  | none => rfl
  | some text =>
    by_cases empty : text = ""
    · rw [empty]
      rfl
    · simp [keptText, ofText?, isVoid, isZero, empty]

theorem Json.isVoid_array_map {α : Type} (f : α → Json) (xs : List α) :
    (array (xs.map f)).isVoid = xs.isEmpty := List.isEmpty_map

theorem Json.isZero_array_map {α : Type} (f : α → Json) (xs : List α) :
    (array (xs.map f)).isZero = xs.isEmpty := List.isEmpty_map

theorem Json.isVoid_tidied (ρ : Number → Number) (v : FreeValue) :
    (v.tidied.mapNumbers ρ).tree.isVoid = v.tree.isZero := by
  obtain ⟨tree, ordered⟩ := v
  unfold FreeValue.tidied
  split
  · rename_i zero
    exact zero.symm
  · rename_i present
    rw [eq_false_of_ne_true present]
    cases tree with
    | array items => simpa [FreeValue.mapNumbers, isVoid, isZero] using present
    | object members => simpa [FreeValue.mapNumbers, isVoid, isZero] using present
    | number n => rfl
    | null => exact absurd rfl present
    | bool b => exact eq_false_of_ne_true present
    | string s => exact eq_false_of_ne_true present

theorem isVoid_propertiesJson (ρ : Number → Number) (properties : List Property) :
    (propertiesJson ((properties.filter (·.settable)).map
      (Property.mapNumbers ρ ∘ Property.tidied))).isVoid = (propertiesJson properties).isZero := by
  have settable : ∀ p ∈ (properties.filter (·.settable)).map
      (Property.mapNumbers ρ ∘ Property.tidied), p.isEmitted = true := by
    intro p hp
    obtain ⟨source, hs, rfl⟩ := List.mem_map.1 hp
    exact (List.mem_filter.1 hs).2
  rw [propertiesJson, propertiesJson, List.filter_eq_self.2 settable, isVoid_array_map,
    isZero_array_map, List.isEmpty_map]
  rfl

theorem EntityKind.isVoid_readAs (ρ : Number → Number) (k : EntityKind) (e : k.Entity) :
    ∀ s ∈ k.slots, s.required = false → (s.value (k.readAs ρ e)).isVoid = (s.value e).isZero := by
  have bool : ∀ b, (Json.bool b).isVoid = (Json.bool b).isZero := fun _ => rfl
  cases k with
  | tool =>
    simp [slots, readAs, Tool.mapNumbers, Tool.normal_parts, isVoid_keptText, isVoid_array_map,
      isZero_array_map]
  | task =>
    simp [slots, readAs, Task.mapNumbers, Task.normal, Task.tidied, Task.unwired,
      Task.settableOnly, isVoid_keptText]
  | settings =>
    simp [slots, readAs, SettingsClass.mapNumbers, SettingsClass.normal, SettingsClass.tidied,
      SettingsClass.unwired, SettingsClass.settableOnly, isVoid_keptText, isVoid_propertiesJson]
  | dataClass =>
    simp [slots, readAs, DataClass.mapNumbers, DataClass.normal, DataClass.tidied,
      DataClass.unwired, DataClass.settableOnly, isVoid_keptText, isVoid_propertiesJson]
  | enumeration =>
    simp [slots, readAs, Enumeration.normal, Enumeration.tidied, Enumeration.unwired,
      isVoid_keptText, isVoid_array_map, isZero_array_map]
  | property =>
    simp [slots, readAs, Property.mapNumbers, Property.tidied, isVoid_keptText, isVoid_tidied, bool]

theorem EntityKind.readAs_clear_ne (ρ : Number → Number) {k : EntityKind} {e : k.Entity}
    {s : Slot k.Entity} (hs : s ∈ k.slots) (optional : s.required = false)
    (present : (s.value e).isZero = false) :
    k.readAs ρ (s.clear e) ≠ k.readAs ρ e := by
  intro same
  have without := isVoid_readAs ρ k (s.clear e) s hs optional
  rw [same, isVoid_readAs ρ k e s hs optional, isZero_clear k e s hs optional, present] at without
  exact Bool.false_ne_true without

end Toolwright
