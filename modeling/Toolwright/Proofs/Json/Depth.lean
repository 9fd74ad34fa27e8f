import Toolwright.Proofs.Json.Real

/-!
How deep a tree is and which numbers stand in it. Both are told by the items and members of a
tree, so that a claim about a container becomes one about each of its parts. A tree is `ReadableAs`
below a number of brackets when it is no deeper than that and its numbers are read as others, which
finite numbers are, and `Readable` when they are read as themselves.
-/

namespace Toolwright.Json

mutual

def AllNumbers (P : Number → Prop) : Json → Prop
  | .number n => P n
  | .array items => AllNumbersItems P items
  | .object members => AllNumbersMembers P members
  | _ => True

def AllNumbersItems (P : Number → Prop) : List Json → Prop
  | [] => True
  | item :: rest => item.AllNumbers P ∧ AllNumbersItems P rest

def AllNumbersMembers (P : Number → Prop) : List (String × Json) → Prop
  | [] => True
  | (_, value) :: rest => value.AllNumbers P ∧ AllNumbersMembers P rest

end

mutual

/-- How many brackets are open at once in the text of the tree. -/
def depth : Json → Nat
  | .array items => depthItems items + 1
  | .object members => depthMembers members + 1
  | _ => 0

def depthItems : List Json → Nat
  | [] => 0
  | item :: rest => max item.depth (depthItems rest)

def depthMembers : List (String × Json) → Nat
  | [] => 0
  | (_, value) :: rest => max value.depth (depthMembers rest)

end

def Whole (tree : Json) : Prop := tree.AllNumbers Number.IsWhole

/-- The tree is no deeper than `limit`, and every number of it satisfies `P`. -/
structure Within (P : Number → Prop) (limit : Nat) (tree : Json) : Prop where
  numbers : tree.AllNumbers P
  depth_le : tree.depth ≤ limit

/-- The tree is no deeper than `limit`, and its numbers are read back from their texts. -/
structure Readable (limit : Nat) (tree : Json) : Prop where
  legible : tree.AllNumbers Number.Legible
  depth_le : tree.depth ≤ limit

/-- The tree is no deeper than `limit`, and the text of each number `n` in it is read as `ρ n`. -/
structure ReadableAs (ρ : Number → Number) (limit : Nat) (tree : Json) : Prop where
  numbers : tree.AllNumbers fun n => n.ReadAs (ρ n)
  depth_le : tree.depth ≤ limit

variable {P Q : Number → Prop}

@[simp] theorem allNumbers_null : (null : Json).AllNumbers P := trivial

@[simp] theorem allNumbers_bool (b : Bool) : (bool b).AllNumbers P := trivial

@[simp] theorem allNumbers_string (s : String) : (string s).AllNumbers P := trivial

@[simp] theorem allNumbers_number (n : Number) : (number n).AllNumbers P ↔ P n := Iff.rfl

@[simp] theorem allNumbers_array (items : List Json) :
    (array items).AllNumbers P ↔ ∀ item ∈ items, item.AllNumbers P := by
  change AllNumbersItems P items ↔ _
  induction items with
  | nil => simp [AllNumbersItems]
  | cons item rest ih => simp [AllNumbersItems, ih]

@[simp] theorem allNumbers_object (members : List (String × Json)) :
    (object members).AllNumbers P ↔ ∀ m ∈ members, m.2.AllNumbers P := by
  change AllNumbersMembers P members ↔ _
  induction members with
  | nil => simp [AllNumbersMembers]
  | cons m rest ih => simp [AllNumbersMembers, ih]

@[simp] theorem depth_null : (null : Json).depth = 0 := rfl

@[simp] theorem depth_bool (b : Bool) : (bool b).depth = 0 := rfl

@[simp] theorem depth_string (s : String) : (string s).depth = 0 := rfl

@[simp] theorem depth_number (n : Number) : (number n).depth = 0 := rfl

theorem depth_array (items : List Json) : (array items).depth = depthItems items + 1 := rfl

theorem depth_object (members : List (String × Json)) :
    (object members).depth = depthMembers members + 1 := rfl

theorem depthItems_le {items : List Json} {limit : Nat} :
    depthItems items ≤ limit ↔ ∀ item ∈ items, item.depth ≤ limit := by
  induction items with
  | nil => simp [depthItems]
  | cons item rest ih => rw [depthItems, Nat.max_le, ih, List.forall_mem_cons]

theorem depthMembers_le {members : List (String × Json)} {limit : Nat} :
    depthMembers members ≤ limit ↔ ∀ m ∈ members, m.2.depth ≤ limit := by
  induction members with
  | nil => simp [depthMembers]
  | cons m rest ih => rw [depthMembers, Nat.max_le, ih, List.forall_mem_cons]

theorem depth_array_le {items : List Json} {limit : Nat} :
    (array items).depth ≤ limit + 1 ↔ ∀ item ∈ items, item.depth ≤ limit := by
  rw [depth_array, Nat.add_le_add_iff_right, depthItems_le]

theorem depth_object_le {members : List (String × Json)} {limit : Nat} :
    (object members).depth ≤ limit + 1 ↔ ∀ m ∈ members, m.2.depth ≤ limit := by
  rw [depth_object, Nat.add_le_add_iff_right, depthMembers_le]

theorem AllNumbers.mono (h : ∀ n, P n → Q n) {tree : Json} (ht : tree.AllNumbers P) :
    tree.AllNumbers Q := by
  -- by the depth, which items and members are below
  have deep : ∀ limit (tree : Json), tree.depth ≤ limit → tree.AllNumbers P →
      tree.AllNumbers Q := by
    intro limit
    induction limit with
    | zero =>
      intro tree hd ht
      cases tree with
      | null => trivial
      | bool b => trivial
      | string s => trivial
      | number n => exact h n ht
      | array items => simp [depth_array] at hd
      | object members => simp [depth_object] at hd
    | succ limit ih =>
      intro tree hd ht
      cases tree with
      | null => trivial
      | bool b => trivial
      | string s => trivial
      | number n => exact h n ht
      | array items =>
        rw [allNumbers_array] at ht ⊢
        exact fun item hi => ih item (depth_array_le.1 hd item hi) (ht item hi)
      | object members =>
        rw [allNumbers_object] at ht ⊢
        exact fun m hm => ih m.2 (depth_object_le.1 hd m hm) (ht m hm)
  exact deep tree.depth tree (Nat.le_refl _) ht

variable {limit : Nat}

@[simp] theorem within_null : Within P limit null := ⟨trivial, Nat.zero_le _⟩

@[simp] theorem within_bool (b : Bool) : Within P limit (bool b) := ⟨trivial, Nat.zero_le _⟩

@[simp] theorem within_string (s : String) : Within P limit (string s) := ⟨trivial, Nat.zero_le _⟩

theorem within_array {items : List Json} :
    Within P (limit + 1) (array items) ↔ ∀ item ∈ items, Within P limit item := by
  constructor
  · intro h item hi
    exact ⟨(allNumbers_array items).1 h.numbers item hi, depth_array_le.1 h.depth_le item hi⟩
  · intro h
    exact ⟨(allNumbers_array items).2 fun item hi => (h item hi).numbers,
      depth_array_le.2 fun item hi => (h item hi).depth_le⟩

theorem within_object {members : List (String × Json)} :
    Within P (limit + 1) (object members) ↔ ∀ m ∈ members, Within P limit m.2 := by
  constructor
  · intro h m hm
    exact ⟨(allNumbers_object members).1 h.numbers m hm, depth_object_le.1 h.depth_le m hm⟩
  · intro h
    exact ⟨(allNumbers_object members).2 fun m hm => (h m hm).numbers,
      depth_object_le.2 fun m hm => (h m hm).depth_le⟩

section ReadableAs

variable {ρ : Number → Number}

theorem readableAs_iff {tree : Json} :
    ReadableAs ρ limit tree ↔ Within (fun n => n.ReadAs (ρ n)) limit tree :=
  ⟨fun h => ⟨h.numbers, h.depth_le⟩, fun h => ⟨h.numbers, h.depth_le⟩⟩

theorem readableAs_array {items : List Json} :
    ReadableAs ρ (limit + 1) (array items) ↔ ∀ item ∈ items, ReadableAs ρ limit item := by
  simp only [readableAs_iff, within_array]

theorem readableAs_object {members : List (String × Json)} :
    ReadableAs ρ (limit + 1) (object members) ↔ ∀ m ∈ members, ReadableAs ρ limit m.2 := by
  simp only [readableAs_iff, within_object]

theorem Within.exists_readableAs {tree : Json} (h : Within Number.IsFinite limit tree) :
    ∃ ρ, ReadableAs ρ limit tree := by
  have each : ∀ n : Number, ∃ m, n.IsFinite → n.ReadAs m := by
    intro n
    by_cases finite : n.IsFinite
    · obtain ⟨m, read⟩ := Number.exists_readAs finite
      exact ⟨m, fun _ => read⟩
    · exact ⟨n, fun h => absurd h finite⟩
  choose ρ read using each
  exact ⟨ρ, h.numbers.mono read, h.depth_le⟩

theorem ReadableAs.limit_pos {tree : Json} (h : ReadableAs ρ limit tree)
    (container : 0 < tree.depth) : ∃ inner, limit = inner + 1 :=
  ⟨limit - 1, by have := h.depth_le; omega⟩

theorem Readable.same {tree : Json} (h : Readable limit tree) : ReadableAs id limit tree :=
  ⟨h.legible, h.depth_le⟩

end ReadableAs

end Toolwright.Json
