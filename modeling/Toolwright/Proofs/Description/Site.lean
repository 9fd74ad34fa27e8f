import Toolwright.Proofs.Description.Layout

/-!
Sites of entities in a tool. An edge leads from an entity to one that it owns, and a site is a way
of edges from the tool. Every edge is also a pointer into the tree of the owner; so what is at a
site of the tool is written at its pointer, and what is changed at the site changes the tree at its
pointer only. Properties are counted among the settable ones, which are those that are written.
-/

namespace Toolwright

open Json

inductive Edge : EntityKind → EntityKind → Type
  | task (index : Nat) : Edge .tool .task
  | settings : Edge .task .settings
  | dataClass (index : Nat) : Edge .tool .dataClass
  | enumeration (index : Nat) : Edge .tool .enumeration
  | settingsProperty (index : Nat) : Edge .settings .property
  | dataProperty (index : Nat) : Edge .dataClass .property

def modifySettable (f : Property → Property) : Nat → List Property → List Property
  | _, [] => []
  | index, p :: rest =>
    if p.settable then
      match index with
      | 0 => f p :: rest
      | index + 1 => p :: modifySettable f index rest
    else p :: modifySettable f index rest

namespace Edge

variable {k l : EntityKind}

/-- Where the tree of an owned entity is in that of its owner. -/
def pointer : Edge k l → Pointer
  | task index => [.member "Tasks", .item index]
  | settings => [.member "SettingsClass"]
  | dataClass index => [.member "DataClasses", .item index]
  | enumeration index => [.member "Enumerations", .item index]
  | settingsProperty index => [.member "Properties", .item index]
  | dataProperty index => [.member "Properties", .item index]

def get? : Edge k l → k.Entity → Option l.Entity
  | task index, t => t.tasks[index]?
  | settings, t => some t.settings
  | dataClass index, t => t.dataClasses[index]?
  | enumeration index, t => t.enumerations[index]?
  | settingsProperty index, c => (c.properties.filter (·.settable))[index]?
  | dataProperty index, d => (d.properties.filter (·.settable))[index]?

/-- The owner with another entity in place of the one that the edge leads to. -/
def modify (edge : Edge k l) (f : l.Entity → l.Entity) : k.Entity → k.Entity :=
  match edge with
  | task index => fun t => { t with tasks := t.tasks.modify index f }
  | settings => fun t => { t with settings := f t.settings }
  | dataClass index => fun t => { t with dataClasses := t.dataClasses.modify index f }
  | enumeration index => fun t => { t with enumerations := t.enumerations.modify index f }
  | settingsProperty index => fun c => { c with properties := modifySettable f index c.properties }
  | dataProperty index => fun d => { d with properties := modifySettable f index d.properties }

end Edge

def EntityKind.Stable : (l : EntityKind) → (l.Entity → l.Entity) → Prop
  | .property, f => ∀ p, (f p).settable = p.settable
  | _, _ => True

theorem filter_modifySettable {f : Property → Property} (stable : ∀ p, (f p).settable = p.settable)
    (index : Nat) (properties : List Property) :
    (modifySettable f index properties).filter (·.settable) =
      (properties.filter (·.settable)).modify index f := by
  induction properties generalizing index with
  | nil => cases index <;> rfl
  | cons p rest ih =>
    unfold modifySettable
    cases settable : p.settable with
    | false => simp [settable, ih]
    | true =>
      cases index with
      | zero => simp [settable, stable]
      | succ index => simp [settable, ih]

theorem propertiesJson_modifySettable {f : Property → Property}
    (stable : ∀ p, (f p).settable = p.settable) (index : Nat) (properties : List Property) :
    propertiesJson (modifySettable f index properties) =
      .array (((properties.filter (·.settable)).modify index f).map Property.toJson) := by
  rw [← filter_modifySettable stable]
  rfl

theorem getElem?_modifySettable {f : Property → Property}
    (stable : ∀ p, (f p).settable = p.settable) (index : Nat) (properties : List Property) :
    ((modifySettable f index properties).filter (·.settable))[index]? =
      (properties.filter (·.settable))[index]?.map f := by
  rw [filter_modifySettable stable]
  exact List.getElem?_modify_eq f index _

namespace EntityKind

variable {k : EntityKind} {e e' : k.Entity} {s : Slot k.Entity}

theorem lookup_written {slots : List (Slot k.Entity)} (nodup : (slots.map (·.key)).Nodup)
    (hs : s ∈ slots) (e : k.Entity) :
    (Slot.written slots e).lookup s.key = if s.isWritten e then some (s.value e) else none := by
  induction slots with
  | nil => exact absurd hs List.not_mem_nil
  | cons first rest ih =>
    obtain ⟨new, nodup⟩ := List.nodup_cons.1 nodup
    have absent : first.key ∉ (Slot.written rest e).map (·.1) := by
      intro among
      obtain ⟨m, hm, same⟩ := List.mem_map.1 among
      obtain ⟨other, ho, rfl⟩ := List.mem_map.1 hm
      exact new (List.mem_map.2 ⟨other, (List.mem_filter.1 ho).1, same⟩)
    rcases List.mem_cons.1 hs with rfl | hs
    · cases written : s.isWritten e with
      | true => simp [Slot.written, written]
      | false =>
        have missing : (Slot.written rest e).lookup s.key = none := by
          refine List.lookup_eq_none_iff.2 fun m hm => ?_
          rw [bne_iff_ne]
          exact fun same => absent (List.mem_map.2 ⟨m, hm, same.symm⟩)
        simpa [Slot.written, written] using missing
    · have apart : (s.key == first.key) = false := by
        simpa using fun same => new (List.mem_map.2 ⟨s, hs, same⟩)
      cases written : first.isWritten e with
      | true => simpa [Slot.written, written, List.lookup_cons, apart] using ih nodup hs
      | false => simpa [Slot.written, written] using ih nodup hs

theorem step?_toJson (e : k.Entity) (hs : s ∈ k.slots) :
    (k.toJson e).step? (.member s.key) = if s.isWritten e then some (s.value e) else none := by
  rw [toJson_eq, step?, lookup_written (map_key_slots k ▸ nodup_keys k) hs]

theorem modifyStep_toJson {h : Json → Json} (hs : s ∈ k.slots)
    (others : ∀ other ∈ k.slots, other.key ≠ s.key → other.value e' = other.value e)
    (own : s.value e' = h (s.value e))
    (kept : s.required = false → (s.value e').isZero = (s.value e).isZero) :
    k.toJson e' = (k.toJson e).modifyStep h (.member s.key) := by
  have written : ∀ other ∈ k.slots, other.isWritten e' = other.isWritten e := by
    intro other ho
    by_cases same : other.key = s.key
    · obtain rfl := eq_of_key hs ho same
      cases required : other.required with
      | true => simp [Slot.isWritten, required]
      | false => simp [Slot.isWritten, required, kept required]
    · simp [Slot.isWritten, others other ho same]
  rw [toJson_eq, toJson_eq, modifyStep, Slot.written, Slot.written, List.filter_congr written,
    List.map_map]
  congr 1
  refine List.map_congr_left fun other ho => ?_
  have among := (List.mem_filter.1 ho).1
  by_cases same : other.key = s.key
  · obtain rfl := eq_of_key hs among same
    simp [own]
  · simp [same, others other among same]

theorem at?_item {α : Type} {f : α → Json} {xs : List α} (hs : s ∈ k.slots)
    (optional : s.required = false) (value : s.value e = .array (xs.map f)) (index : Nat) :
    at? [.member s.key, .item index] (k.toJson e) = xs[index]?.map f := by
  have written : s.isWritten e = !xs.isEmpty := by
    rw [Slot.isWritten, optional, value, isZero_array_map, Bool.false_or]
  rw [at?, step?_toJson e hs, written, value]
  cases xs with
  | nil => rfl
  | cons x xs => exact (at?_single _ _).trans List.getElem?_map

theorem modifyAt_item {α : Type} {f : α → Json} {xs : List α} {c : α → α} {g : Json → Json}
    {index : Nat} (hs : s ∈ k.slots)
    (others : ∀ other ∈ k.slots, other.key ≠ s.key → other.value e' = other.value e)
    (value : s.value e = .array (xs.map f))
    (value' : s.value e' = .array ((xs.modify index c).map f))
    (along : ∀ x, f (c x) = g (f x)) :
    k.toJson e' = modifyAt g [.member s.key, .item index] (k.toJson e) := by
  refine modifyStep_toJson hs others ?_ fun _ => ?_
  · rw [value, value', modifyAt, modifyStep, map_modify along]
    rfl
  · rw [value, value', isZero_array_map, isZero_array_map, Bool.eq_iff_iff, List.isEmpty_iff,
      List.isEmpty_iff, ← List.length_eq_zero_iff, List.length_modify, List.length_eq_zero_iff]

end EntityKind

theorem EntityKind.mem_slots {k : EntityKind} (key : String) {s : Slot k.Entity}
    (found : k.slots.find? (·.key == key) = some s) : s ∈ k.slots := List.mem_of_find?_eq_some found

theorem EntityKind.stable_clear (k : EntityKind) : ∀ s ∈ k.slots, k.Stable s.clear := by
  cases k <;> simp [slots, Stable]

namespace Edge

variable {k l : EntityKind} {f : l.Entity → l.Entity}

theorem at?_pointer (edge : Edge k l) (e : k.Entity) :
    at? edge.pointer (k.toJson e) = (edge.get? e).map l.toJson := by
  cases edge with
  | task index =>
    exact EntityKind.at?_item (k := .tool) (EntityKind.mem_slots "Tasks" rfl) rfl rfl index
  | settings =>
    exact (at?_single _ _).trans
      (EntityKind.step?_toJson (k := .task) e (EntityKind.mem_slots "SettingsClass" rfl))
  | dataClass index =>
    exact EntityKind.at?_item (k := .tool) (EntityKind.mem_slots "DataClasses" rfl) rfl rfl index
  | enumeration index =>
    exact EntityKind.at?_item (k := .tool) (EntityKind.mem_slots "Enumerations" rfl) rfl rfl index
  | settingsProperty index =>
    exact EntityKind.at?_item (k := .settings) (EntityKind.mem_slots "Properties" rfl) rfl rfl index
  | dataProperty index =>
    exact EntityKind.at?_item (k := .dataClass) (EntityKind.mem_slots "Properties" rfl) rfl rfl
      index

theorem toJson_modify (edge : Edge k l) (stable : l.Stable f) {g : Json → Json}
    (along : ∀ e, l.toJson (f e) = g (l.toJson e)) (e : k.Entity) :
    k.toJson (edge.modify f e) = modifyAt g edge.pointer (k.toJson e) := by
  cases edge with
  | task index =>
    exact EntityKind.modifyAt_item (k := .tool) (EntityKind.mem_slots "Tasks" rfl)
      (by simp [EntityKind.slots, modify]) rfl rfl along
  | settings =>
    exact EntityKind.modifyStep_toJson (k := .task) (EntityKind.mem_slots "SettingsClass" rfl)
      (by simp [EntityKind.slots, modify]) (along _)
      (fun optional => by cases optional)
  | dataClass index =>
    exact EntityKind.modifyAt_item (k := .tool) (EntityKind.mem_slots "DataClasses" rfl)
      (by simp [EntityKind.slots, modify]) rfl rfl along
  | enumeration index =>
    exact EntityKind.modifyAt_item (k := .tool) (EntityKind.mem_slots "Enumerations" rfl)
      (by simp [EntityKind.slots, modify]) rfl rfl along
  | settingsProperty index =>
    exact EntityKind.modifyAt_item (k := .settings) (EntityKind.mem_slots "Properties" rfl)
      (by simp [EntityKind.slots, modify]) rfl
      (propertiesJson_modifySettable stable index _) along
  | dataProperty index =>
    exact EntityKind.modifyAt_item (k := .dataClass) (EntityKind.mem_slots "Properties" rfl)
      (by simp [EntityKind.slots, modify]) rfl
      (propertiesJson_modifySettable stable index _) along

theorem get?_modify (edge : Edge k l) (stable : l.Stable f) (e : k.Entity) :
    edge.get? (edge.modify f e) = (edge.get? e).map f := by
  cases edge with
  | settings => rfl
  | settingsProperty index => exact getElem?_modifySettable stable index _
  | dataProperty index => exact getElem?_modifySettable stable index _
  | _ index => exact List.getElem?_modify_eq f index _

theorem get?_readAs (edge : Edge k l) (ρ : Number → Number) (e : k.Entity) :
    edge.get? (k.readAs ρ e) = (edge.get? e).map (l.readAs ρ) := by
  have read : ∀ (properties : List Property) (index : Nat),
      (((properties.filter (·.settable)).map
        (Property.mapNumbers ρ ∘ Property.tidied)).filter (·.settable))[index]? =
        (properties.filter (·.settable))[index]?.map (EntityKind.readAs ρ .property) := by
    intro properties index
    rw [List.filter_eq_self.2, List.getElem?_map]
    · rfl
    · intro p hp
      obtain ⟨source, hs, rfl⟩ := List.mem_map.1 hp
      exact (List.mem_filter.1 hs).2
  cases edge with
  | task index =>
    simp only [get?, EntityKind.readAs, Tool.mapNumbers, Tool.normal_parts, List.map_map]
    exact List.getElem?_map
  | settings => rfl
  | dataClass index =>
    simp only [get?, EntityKind.readAs, Tool.mapNumbers, Tool.normal_parts, List.map_map]
    exact List.getElem?_map
  | enumeration index =>
    simp only [get?, EntityKind.readAs, Tool.mapNumbers, Tool.normal_parts, List.map_map]
    exact List.getElem?_map
  | settingsProperty index =>
    refine Eq.trans ?_ (read e.properties index)
    simp [get?, EntityKind.readAs, SettingsClass.mapNumbers, SettingsClass.normal,
      SettingsClass.tidied, SettingsClass.unwired, SettingsClass.settableOnly]
  | dataProperty index =>
    refine Eq.trans ?_ (read e.properties index)
    simp [get?, EntityKind.readAs, DataClass.mapNumbers, DataClass.normal, DataClass.tidied,
      DataClass.unwired, DataClass.settableOnly]

end Edge

inductive Site : EntityKind → Type
  | root : Site .tool
  | along {k l : EntityKind} (owner : Site k) (edge : Edge k l) : Site l

namespace Site

variable {k : EntityKind} {f : k.Entity → k.Entity}

/-- Where the tree of the entity at a site is in that of the tool. -/
def pointer : {k : EntityKind} → Site k → Pointer
  | _, root => []
  | _, along owner edge => owner.pointer ++ edge.pointer

def get? : {k : EntityKind} → Site k → Tool → Option k.Entity
  | _, root, t => some t
  | _, along owner edge, t => (owner.get? t).bind edge.get?

/-- The tool with another entity in place of the one at a site. -/
def modify : {k : EntityKind} → Site k → (k.Entity → k.Entity) → Tool → Tool
  | _, root, f => f
  | _, along owner edge, f => owner.modify (edge.modify f)

theorem at?_pointer (site : Site k) (t : Tool) :
    at? site.pointer t.toJson = (site.get? t).map k.toJson := by
  induction site with
  | root => rfl
  | along owner edge ih =>
    rw [pointer, at?_append, ih, get?]
    cases owner.get? t with
    | none => rfl
    | some e => exact edge.at?_pointer e

theorem stable_modify {l : EntityKind} (edge : Edge k l) (f : l.Entity → l.Entity) :
    k.Stable (edge.modify f) := by
  cases edge <;> trivial

theorem toJson_modify (site : Site k) (stable : k.Stable f) {g : Json → Json}
    (along : ∀ e, k.toJson (f e) = g (k.toJson e)) (t : Tool) :
    (site.modify f t).toJson = modifyAt g site.pointer t.toJson := by
  induction site generalizing g with
  | root => exact along t
  | along owner edge ih =>
    rw [pointer, modifyAt_append]
    exact ih (stable_modify edge f) (edge.toJson_modify stable along)

theorem get?_modify (site : Site k) (stable : k.Stable f) (t : Tool) :
    site.get? (site.modify f t) = (site.get? t).map f := by
  induction site with
  | root => rfl
  | along owner edge ih =>
    rw [get?, get?, modify, ih (stable_modify edge f)]
    cases owner.get? t with
    | none => rfl
    | some e => exact edge.get?_modify stable e

theorem get?_readAs (site : Site k) (ρ : Number → Number) (t : Tool) :
    site.get? (t.normal.mapNumbers ρ) = (site.get? t).map (k.readAs ρ) := by
  induction site with
  | root => rfl
  | along owner edge ih =>
    rw [get?, get?, ih]
    cases owner.get? t with
    | none => rfl
    | some e => exact edge.get?_readAs ρ e

end Site

end Toolwright
