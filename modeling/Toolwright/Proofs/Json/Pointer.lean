import Toolwright.Proofs.Json.Depth

/-!
Places in trees. A pointer is followed member by member and item by item; what stands at its end can
be looked at or changed. A change that makes a part no deeper and brings no other number into it
does the same to the whole tree. Leaving out a member is such a change.
-/

namespace Toolwright.Json

inductive Step where
  | member (key : String)
  | item (index : Nat)

abbrev Pointer := List Step

def step? : Step → Json → Option Json
  | .member key, .object members => members.lookup key
  | .item index, .array items => items[index]?
  | _, _ => none

def at? : Pointer → Json → Option Json
  | [], tree => some tree
  | step :: rest, tree => (tree.step? step).bind (at? rest)

def modifyStep (f : Json → Json) : Step → Json → Json
  | .member key, .object members =>
    .object (members.map fun m => if m.1 = key then (m.1, f m.2) else m)
  | .item index, .array items => .array (items.modify index f)
  | _, tree => tree

def modifyAt (f : Json → Json) : Pointer → Json → Json
  | [], tree => f tree
  | step :: rest, tree => tree.modifyStep (modifyAt f rest) step

def dropMember (key : String) : Json → Json
  | .object members => .object (members.filter fun m => m.1 != key)
  | tree => tree

variable {f : Json → Json}

theorem at?_single (step : Step) (tree : Json) : at? [step] tree = tree.step? step := by
  rw [at?]
  cases tree.step? step <;> rfl

theorem at?_append (p q : Pointer) (tree : Json) :
    at? (p ++ q) tree = (at? p tree).bind (at? q) := by
  induction p generalizing tree with
  | nil => rfl
  | cons step p ih =>
    simp only [List.cons_append, at?, Option.bind_assoc]
    congr 1
    exact funext ih

theorem modifyAt_append (p q : Pointer) (tree : Json) :
    modifyAt f (p ++ q) tree = modifyAt (modifyAt f q) p tree := by
  induction p generalizing tree with
  | nil => rfl
  | cons step p ih =>
    simp only [List.cons_append, modifyAt]
    congr 1
    exact funext ih

theorem mem_modify {α : Type} {g : α → α} {xs : List α} {i : Nat} {x : α} (h : x ∈ xs.modify i g) :
    x ∈ xs ∨ ∃ y ∈ xs, x = g y := by
  obtain ⟨j, there⟩ := List.mem_iff_getElem?.1 h
  rw [List.getElem?_modify] at there
  obtain ⟨y, hy, rfl⟩ := Option.map_eq_some_iff.1 there
  have among := List.mem_of_getElem? hy
  split
  · exact .inr ⟨y, among, rfl⟩
  · exact .inl among

theorem map_modify {α β : Type} {f : α → β} {c : α → α} {g : β → β}
    (along : ∀ x, f (c x) = g (f x)) (xs : List α) (i : Nat) :
    (xs.modify i c).map f = (xs.map f).modify i g := by
  refine List.ext_getElem? fun j => ?_
  simp only [List.getElem?_map, List.getElem?_modify]
  cases xs[j]? with
  | none => rfl
  | some x =>
    by_cases here : i = j
    · simp [here, along]
    · simp [here]

theorem modifyStep_keeps {P Q : Json → Prop} (items : ∀ xs, P (.array xs) ↔ ∀ x ∈ xs, Q x)
    (members : ∀ ms, P (.object ms) ↔ ∀ m ∈ ms, Q m.2) (keep : ∀ tree, Q tree → Q (f tree))
    (step : Step) {tree : Json} (h : P tree) : P (tree.modifyStep f step) := by
  cases step with
  | member key =>
    cases tree with
    | object ms =>
      rw [modifyStep, members]
      intro m hm
      obtain ⟨source, hs, rfl⟩ := List.mem_map.1 hm
      have held := (members ms).1 h source hs
      split
      · exact keep source.2 held
      · exact held
    | _ => exact h
  | item index =>
    cases tree with
    | array xs =>
      rw [modifyStep, items]
      intro x hx
      rcases mem_modify hx with hx | ⟨y, hy, rfl⟩
      · exact (items xs).1 h x hx
      · exact keep y ((items xs).1 h y hy)
    | _ => exact h

theorem allNumbers_modifyAt {P : Number → Prop}
    (keep : ∀ tree, tree.AllNumbers P → (f tree).AllNumbers P) (p : Pointer) {tree : Json}
    (h : tree.AllNumbers P) : (modifyAt f p tree).AllNumbers P := by
  induction p generalizing tree with
  | nil => exact keep tree h
  | cons step p ih =>
    exact modifyStep_keeps (P := AllNumbers P) (Q := AllNumbers P) allNumbers_array
      allNumbers_object (fun _ => ih) step h

theorem depth_modifyAt_le (keep : ∀ limit tree, depth tree ≤ limit → depth (f tree) ≤ limit)
    (p : Pointer) {limit : Nat} {tree : Json} (h : tree.depth ≤ limit) :
    (modifyAt f p tree).depth ≤ limit := by
  induction p generalizing limit tree with
  | nil => exact keep limit tree h
  | cons step p ih =>
    cases limit with
    | zero =>
      have same : tree.modifyStep (modifyAt f p) step = tree := by
        cases tree with
        | array items => simp [depth_array] at h
        | object members => simp [depth_object] at h
        | _ => cases step <;> rfl
      rwa [modifyAt, same]
    | succ limit =>
      exact modifyStep_keeps (P := fun tree => depth tree ≤ limit + 1)
        (Q := fun tree => depth tree ≤ limit) (fun _ => depth_array_le) (fun _ => depth_object_le)
        (fun _ => ih) step h

theorem allNumbers_dropMember {P : Number → Prop} (key : String) {tree : Json}
    (h : tree.AllNumbers P) : (tree.dropMember key).AllNumbers P := by
  cases tree with
  | object members =>
    rw [allNumbers_object] at h
    rw [dropMember, allNumbers_object]
    exact fun m hm => h m (List.mem_filter.1 hm).1
  | _ => exact h

theorem depth_dropMember_le (key : String) {limit : Nat} {tree : Json} (h : tree.depth ≤ limit) :
    (tree.dropMember key).depth ≤ limit := by
  cases tree with
  | object members =>
    cases limit with
    | zero => simp [depth_object] at h
    | succ limit =>
      rw [depth_object_le] at h
      rw [dropMember, depth_object_le]
      exact fun m hm => h m (List.mem_filter.1 hm).1
  | _ => exact h

theorem ReadableAs.dropMember {ρ : Number → Number} {limit : Nat} {tree : Json}
    (h : ReadableAs ρ limit tree) (p : Pointer) (key : String) :
    ReadableAs ρ limit (modifyAt (Json.dropMember key) p tree) where
  numbers := allNumbers_modifyAt (fun _ => allNumbers_dropMember key) p h.numbers
  depth_le := depth_modifyAt_le (fun _ _ => depth_dropMember_le key) p h.depth_le

end Toolwright.Json
