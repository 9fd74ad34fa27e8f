import Toolwright.Decimal.Notation

/-!
JSON trees. Members of an object stand in the order in which they are written. A `FreeValue` is a
tree in which the keys of every object strictly ascend, so that two of them are equal as data
exactly when they are equal as trees.
-/

namespace Toolwright

/-- A number as a JSON text can hold it. Whole numbers beyond 64 bits are real. -/
inductive Json.Number where
  | natural (n : UInt64)
  /-- The number `-(n + 1)`. -/
  | negative (n : Fin 0x8000000000000000)
  | real (x : Float)

inductive Json where
  | null
  | bool (b : Bool)
  | number (n : Json.Number)
  | string (s : String)
  | array (items : List Json)
  | object (members : List (String × Json))
  deriving Inhabited

namespace Json

/-- Equality of numbers; a whole number differs from a real one of the same value. -/
def Number.same : Number → Number → Bool
  | .natural a, .natural b => a == b
  | .negative a, .negative b => a == b
  | .real a, .real b => a == b
  | _, _ => false

mutual

def same : Json → Json → Bool
  | .null, .null => true
  | .bool a, .bool b => a == b
  | .number a, .number b => a.same b
  | .string a, .string b => a == b
  | .array a, .array b => sameItems a b
  | .object a, .object b => sameMembers a b
  | _, _ => false

def sameItems : List Json → List Json → Bool
  | [], [] => true
  | a :: as, b :: bs => same a b && sameItems as bs
  | _, _ => false

def sameMembers : List (String × Json) → List (String × Json) → Bool
  | [], [] => true
  | (k, a) :: as, (l, b) :: bs => k == l && same a b && sameMembers as bs
  | _, _ => false

end

instance : BEq Json := ⟨same⟩

def Number.toFloat : Number → Float
  | .natural n => n.toFloat
  | .negative n => -((n.val + 1).toUInt64.toFloat)
  | .real x => x

def Number.toInt? : Number → Option Int
  | .natural n => some n.toNat
  | .negative n => some (Int.negSucc n.val)
  | .real _ => none

/-- Null, false, zero and the empty texts and containers: what an absent member stands for. -/
def isZero : Json → Bool
  | .null => true
  | .bool b => !b
  | .number (.natural n) => n == 0
  | .number (.negative _) => false
  | .number (.real x) => x == 0.0
  | .string s => s.isEmpty
  | .array items => items.isEmpty
  | .object members => members.isEmpty

/-- Put a member in front of the first greater key; a member of the same key gives way. -/
def insertMember (key : String) (value : Json) :
    List (String × Json) → List (String × Json)
  | [] => [(key, value)]
  | (k, v) :: rest =>
    if key < k then (key, value) :: (k, v) :: rest
    else if key = k then (key, value) :: rest
    else (k, v) :: insertMember key value rest

def keysAscend : List (String × Json) → Prop
  | [] => True
  | (k, _) :: rest => (∀ m ∈ rest, k < m.1) ∧ keysAscend rest

mutual

def Ordered : Json → Prop
  | .array items => OrderedItems items
  | .object members => keysAscend members ∧ OrderedMembers members
  | _ => True

def OrderedItems : List Json → Prop
  | [] => True
  | item :: rest => item.Ordered ∧ OrderedItems rest

def OrderedMembers : List (String × Json) → Prop
  | [] => True
  | (_, value) :: rest => value.Ordered ∧ OrderedMembers rest

end

theorem mem_insertMember {key : String} {value : Json} {members : List (String × Json)}
    {m : String × Json} (h : m ∈ insertMember key value members) :
    m = (key, value) ∨ m ∈ members := by
  induction members with
  | nil => simpa [insertMember] using h
  | cons first rest ih =>
    obtain ⟨k, v⟩ := first
    simp only [insertMember] at h
    split at h
    · simpa using h
    · split at h
      · rcases List.mem_cons.1 h with h | h
        · exact .inl h
        · exact .inr (List.mem_cons_of_mem _ h)
      · rcases List.mem_cons.1 h with h | h
        · exact .inr (by simp [h])
        · rcases ih h with h | h
          · exact .inl h
          · exact .inr (List.mem_cons_of_mem _ h)

theorem keysAscend_insertMember (key : String) (value : Json)
    {members : List (String × Json)} (h : keysAscend members) :
    keysAscend (insertMember key value members) := by
  induction members with
  | nil => simp [insertMember, keysAscend]
  | cons first rest ih =>
    obtain ⟨k, v⟩ := first
    obtain ⟨hk, hrest⟩ := h
    simp only [insertMember]
    split
    · rename_i hlt
      refine ⟨fun m hm => ?_, hk, hrest⟩
      rcases List.mem_cons.1 hm with rfl | hm
      · exact hlt
      · exact String.lt_trans hlt (hk m hm)
    · split
      · rename_i heq
        exact ⟨fun m hm => heq ▸ hk m hm, hrest⟩
      · rename_i hlt hne
        refine ⟨fun m hm => ?_, ih hrest⟩
        rcases mem_insertMember hm with rfl | hm
        · exact Classical.byContradiction fun hge =>
            hne (String.le_antisymm (String.not_lt.1 hge) (String.not_lt.1 hlt))
        · exact hk m hm

theorem OrderedMembers_insertMember (key : String) {value : Json}
    {members : List (String × Json)} (hv : value.Ordered) (h : OrderedMembers members) :
    OrderedMembers (insertMember key value members) := by
  induction members with
  | nil => exact ⟨hv, trivial⟩
  | cons first rest ih =>
    obtain ⟨k, v⟩ := first
    obtain ⟨hfirst, hrest⟩ := h
    simp only [insertMember]
    split
    · exact ⟨hv, hfirst, hrest⟩
    · split
      · exact ⟨hv, hrest⟩
      · exact ⟨hfirst, ih hrest⟩

structure FreeValue where
  tree : Json
  ordered : tree.Ordered := by trivial

def FreeValue.null : FreeValue := ⟨.null, trivial⟩

instance : Inhabited FreeValue := ⟨.null⟩

instance : BEq FreeValue := ⟨fun a b => a.tree == b.tree⟩

end Json

end Toolwright
