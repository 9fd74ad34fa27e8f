import Toolwright.Proofs.Json.Depth

/-!
Trees whose numbers are replaced. Nothing but the numbers changes: depth, keys and their order stay,
and so does whether a tree is a number, a text, a list or an object.
-/

namespace Toolwright.Json

variable {ρ : Number → Number}

mutual

def mapNumbers (ρ : Number → Number) : Json → Json
  | .number n => .number (ρ n)
  | .array items => .array (mapItems ρ items)
  | .object members => .object (mapMembers ρ members)
  | tree => tree

def mapItems (ρ : Number → Number) : List Json → List Json
  | [] => []
  | item :: rest => item.mapNumbers ρ :: mapItems ρ rest

def mapMembers (ρ : Number → Number) : List (String × Json) → List (String × Json)
  | [] => []
  | (key, value) :: rest => (key, value.mapNumbers ρ) :: mapMembers ρ rest

end

theorem mapItems_eq (items : List Json) : mapItems ρ items = items.map (mapNumbers ρ) := by
  induction items with
  | nil => rfl
  | cons item rest ih => rw [mapItems, ih, List.map_cons]

theorem mapMembers_eq (members : List (String × Json)) :
    mapMembers ρ members = members.map fun m => (m.1, m.2.mapNumbers ρ) := by
  induction members with
  | nil => rfl
  | cons m rest ih => rw [mapMembers, ih, List.map_cons]

@[simp] theorem mapNumbers_array (items : List Json) :
    (array items).mapNumbers ρ = array (items.map (mapNumbers ρ)) :=
  congrArg array (mapItems_eq items)

@[simp] theorem mapNumbers_object (members : List (String × Json)) :
    (object members).mapNumbers ρ = object (members.map fun m => (m.1, m.2.mapNumbers ρ)) :=
  congrArg object (mapMembers_eq members)

mutual

theorem mapNumbers_id : ∀ tree : Json, tree.mapNumbers id = tree
  | .null => rfl
  | .bool _ => rfl
  | .number _ => rfl
  | .string _ => rfl
  | .array items => congrArg array (mapItems_id items)
  | .object members => congrArg object (mapMembers_id members)

theorem mapItems_id : ∀ items : List Json, mapItems id items = items
  | [] => rfl
  | item :: rest => by rw [mapItems, mapNumbers_id item, mapItems_id rest]

theorem mapMembers_id : ∀ members : List (String × Json), mapMembers id members = members
  | [] => rfl
  | (key, value) :: rest => by rw [mapMembers, mapNumbers_id value, mapMembers_id rest]

end

theorem keysAscend_mapMembers {members : List (String × Json)} (h : keysAscend members) :
    keysAscend (mapMembers ρ members) := by
  rw [mapMembers_eq]
  induction members with
  | nil => trivial
  | cons m rest ih =>
    obtain ⟨below, ascend⟩ := h
    refine ⟨fun other ho => ?_, ih ascend⟩
    obtain ⟨source, hs, rfl⟩ := List.mem_map.1 ho
    exact below source hs

mutual

theorem ordered_mapNumbers : ∀ {tree : Json}, tree.Ordered → (tree.mapNumbers ρ).Ordered
  | .null, _ => trivial
  | .bool _, _ => trivial
  | .number _, _ => trivial
  | .string _, _ => trivial
  | .array _, h => orderedItems_mapItems h
  | .object _, ⟨ascend, h⟩ => ⟨keysAscend_mapMembers ascend, orderedMembers_mapMembers h⟩

theorem orderedItems_mapItems : ∀ {items : List Json}, OrderedItems items →
    OrderedItems (mapItems ρ items)
  | [], _ => trivial
  | _ :: _, ⟨first, rest⟩ => ⟨ordered_mapNumbers first, orderedItems_mapItems rest⟩

theorem orderedMembers_mapMembers : ∀ {members : List (String × Json)}, OrderedMembers members →
    OrderedMembers (mapMembers ρ members)
  | [], _ => trivial
  | _ :: _, ⟨first, rest⟩ => ⟨ordered_mapNumbers first, orderedMembers_mapMembers rest⟩

end

def FreeValue.mapNumbers (ρ : Number → Number) (v : FreeValue) : FreeValue :=
  ⟨v.tree.mapNumbers ρ, ordered_mapNumbers v.ordered⟩

@[simp] theorem FreeValue.mapNumbers_id (v : FreeValue) : v.mapNumbers id = v := by
  cases v
  simp only [mapNumbers, Json.mapNumbers_id]

end Toolwright.Json
