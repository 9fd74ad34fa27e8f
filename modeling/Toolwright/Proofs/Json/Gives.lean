import Toolwright.Description.Reader
import Toolwright.Proofs.Json.Depth
import Toolwright.Proofs.Json.Finite

/-!
What readers give. A reader `Gives P` when whatever it reads satisfies `P`, for every text. For
records an invariant of the partial record is followed: the blank record satisfies it, every member
keeps it, and a record that is complete has it. A value is no deeper than its reader allows, and its
numbers are finite.
-/

namespace Toolwright.Json

theorem ok_of_bind {ε α β : Type} {x : Except ε α} {f : α → Except ε β} {b : β}
    (h : x >>= f = .ok b) : ∃ a, x = .ok a ∧ f a = .ok b := by
  cases x with
  | error e => cases h
  | ok a => exact ⟨a, rfl, h⟩

def Gives {α : Type} (reader : Reader α) (P : α → Prop) : Prop :=
  ∀ s a rest, reader s = .ok (a, rest) → P a

namespace Gives

variable {α : Type} {P Q : α → Prop} {reader : Reader α}

theorem any : Gives reader fun _ => True := fun _ _ _ _ => trivial

theorem mono (h : Gives reader P) (hPQ : ∀ a, P a → Q a) : Gives reader Q :=
  fun s a rest read => hPQ a (h s a rest read)

theorem items (h : Gives reader P) (fuel : Nat) (first : Bool) :
    Gives (Reader.items reader fuel first) fun xs => ∀ x ∈ xs, P x := by
  induction fuel generalizing first with
  | zero => intro s xs rest read; cases read
  | succ fuel ih =>
    intro s xs rest read
    obtain ⟨start, _, read⟩ := ok_of_bind read
    cases start with
    | close after =>
      cases read
      simp
    | item start =>
      obtain ⟨⟨x, after⟩, first, read⟩ := ok_of_bind read
      obtain ⟨⟨more, last⟩, others, read⟩ := ok_of_bind read
      cases read
      exact List.forall_mem_cons.2 ⟨h start x after first, ih false after more rest others⟩

theorem members {σ : Type} {Inv : σ → Prop} {add : String → α → σ → σ} (h : Gives reader P)
    (hadd : ∀ key a acc, P a → Inv acc → Inv (add key a acc)) (fuel : Nat) (first : Bool) {acc : σ}
    (hacc : Inv acc) : Gives (Reader.members reader add fuel first acc) Inv := by
  induction fuel generalizing first acc with
  | zero => intro s found rest read; cases read
  | succ fuel ih =>
    intro s found rest read
    obtain ⟨start, _, read⟩ := ok_of_bind read
    cases start with
    | close after =>
      cases read
      exact hacc
    | key start =>
      obtain ⟨⟨key, afterKey⟩, _, read⟩ := ok_of_bind read
      obtain ⟨afterColon, _, read⟩ := ok_of_bind read
      obtain ⟨⟨x, after⟩, value, read⟩ := ok_of_bind read
      exact ih false (hadd key x acc (h afterColon x after value) hacc) after found rest read

theorem list {item : Nat → Reader α} {P : Nat → α → Prop}
    (h : ∀ limit, Gives (item limit) (P limit)) (limit : Nat) :
    Gives (Reader.list item limit) fun xs => ∃ inner, limit = inner + 1 ∧ ∀ x ∈ xs, P inner x := by
  intro s xs rest read
  unfold Reader.list at read
  split at read
  · split at read
    · cases read
    · rename_i inner
      exact ⟨inner, rfl, items (h inner) _ true _ xs rest read⟩
  · cases read

theorem of_readAll (h : Gives reader P) {s : List Char} {a : α}
    (read : Reader.readAll reader s = .ok a) : P a := by
  unfold Reader.readAll at read
  split at read
  · cases read
  · rename_i value
    split at read
    · cases read
      exact h _ _ _ value
    · cases read

end Gives

/-- Every value of the object is no deeper than `limit`, and its numbers are finite. -/
def OrderedObject.Within (limit : Nat) (object : OrderedObject) : Prop :=
  ∀ m ∈ object.val, m.2.Within Number.IsFinite limit

theorem OrderedObject.Within.insert {key : String} {value : FreeValue} {object : OrderedObject}
    {limit : Nat} (hvalue : value.tree.Within Number.IsFinite limit)
    (hobject : object.Within limit) : (OrderedObject.insert key value object).Within limit := by
  intro m hm
  rcases mem_insertMember hm with rfl | hm
  · exact hvalue
  · exact hobject m hm

theorem gives_value (limit : Nat) :
    Gives (Reader.value limit) fun v => v.tree.Within Number.IsFinite limit := by
  -- by the depth that is left, which every bracket lowers
  induction limit using Nat.strongRecOn with
  | ind limit ih =>
    intro s v rest read
    unfold Reader.value at read
    split at read
    · cases read
    · obtain ⟨after, _, read⟩ := ok_of_bind read
      cases read
      exact within_null
    · obtain ⟨after, _, read⟩ := ok_of_bind read
      cases read
      exact within_bool true
    · obtain ⟨after, _, read⟩ := ok_of_bind read
      cases read
      exact within_bool false
    · obtain ⟨⟨text, after⟩, _, read⟩ := ok_of_bind read
      cases read
      exact within_string text
    · obtain ⟨⟨n, after⟩, number, read⟩ := ok_of_bind read
      cases read
      exact ⟨Reader.isFinite_of_number number, Nat.zero_le _⟩
    · split at read
      · cases read
      · rename_i inner
        obtain ⟨⟨values, after⟩, items, read⟩ := ok_of_bind read
        cases read
        have each := (ih inner (Nat.lt_succ_self inner)).items _ true _ values rest items
        refine within_array.2 fun item hi => ?_
        obtain ⟨v, hv, rfl⟩ := List.mem_map.1 hi
        exact each v hv
    · split at read
      · cases read
      · rename_i inner
        obtain ⟨⟨found, after⟩, members, read⟩ := ok_of_bind read
        cases read
        have blank : OrderedObject.Within inner ⟨[], trivial, trivial⟩ :=
          fun m hm => absurd hm List.not_mem_nil
        have each : OrderedObject.Within inner found :=
          Gives.members (ih inner (Nat.lt_succ_self inner))
            (fun _ _ _ value object => object.insert value) _ true blank _ found rest members
        exact within_object.2 each
    · split at read
      · obtain ⟨⟨n, after⟩, number, read⟩ := ok_of_bind read
        cases read
        exact ⟨Reader.isFinite_of_number number, Nat.zero_le _⟩
      · cases read

theorem gives_memberOf {ρ γ : Type} {key : String} {required : Bool} {get : ρ → Option γ}
    {set : γ → ρ → ρ} {reader : Nat → Reader γ} {depth : Nat} {record : ρ} {P : γ → Prop}
    {Inv : ρ → Prop} (h : Gives (reader depth) P) (hset : ∀ a, P a → Inv (set a record)) :
    Gives ((memberOf key required get set reader).read depth record) Inv := by
  intro s next rest read
  obtain ⟨⟨a, after⟩, value, read⟩ := ok_of_bind read
  cases read
  exact hset a (h s a rest value)

namespace Form

variable {ρ α : Type} {form : Form ρ α} {depth : Nat} {Inv : ρ → Prop}

theorem gives_readMembers
    (hstep : ∀ m ∈ form.members, ∀ record, Inv record → Gives (m.read depth record) Inv)
    (fuel : Nat) (first : Bool) {record : ρ} (h : Inv record) :
    Gives (form.readMembers depth fuel first record) Inv := by
  induction fuel generalizing first record with
  | zero => intro s last rest read; cases read
  | succ fuel ih =>
    intro s last rest read
    obtain ⟨start, _, read⟩ := ok_of_bind read
    cases start with
    | close after =>
      cases read
      exact h
    | key start =>
      obtain ⟨⟨key, afterKey⟩, _, read⟩ := ok_of_bind read
      simp only at read
      split at read
      · obtain ⟨afterColon, _, read⟩ := ok_of_bind read
        obtain ⟨after, _, read⟩ := ok_of_bind read
        exact ih false h after last rest read
      · rename_i m found
        split at read
        · cases read
        · obtain ⟨afterColon, _, read⟩ := ok_of_bind read
          obtain ⟨⟨next, after⟩, value, read⟩ := ok_of_bind read
          have member : m ∈ form.members := List.mem_of_find?_eq_some found
          have kept : Inv next := hstep m member record h afterColon next after value
          exact ih false kept after last rest read

theorem gives_readList {members : List (Member ρ)}
    (hstep : ∀ m ∈ members, ∀ record, Inv record → Gives (m.read depth record) Inv)
    (given : Nat) {record : ρ} (h : Inv record) :
    Gives (form.readList depth members given record) Inv := by
  induction members generalizing given record with
  | nil =>
    intro s last rest read
    unfold readList at read
    split at read
    · cases read
    · cases read
      exact h
    · split at read <;> cases read
    · cases read
  | cons m more ih =>
    intro s last rest read
    obtain ⟨start, _, read⟩ := ok_of_bind read
    cases start with
    | item start =>
      obtain ⟨⟨next, after⟩, value, read⟩ := ok_of_bind read
      have kept : Inv next := hstep m (by simp) record h start next after value
      exact ih (fun m hm => hstep m (List.mem_cons_of_mem _ hm))
        (given + 1) kept after last rest read
    | close after =>
      simp only at read
      split at read
      · cases read
        exact h
      · cases read

theorem gives_record {P : Nat → α → Prop} {Inv : Nat → ρ → Prop}
    (hblank : ∀ depth, Inv depth form.blank)
    (hstep : ∀ depth, ∀ m ∈ form.members, ∀ record, Inv depth record →
      Gives (m.read depth record) (Inv depth))
    (hcomplete : ∀ depth record a, Inv depth record → form.complete record = some a →
      P (depth + 1) a) (limit : Nat) : Gives (Reader.record form limit) (P limit) := by
  have finished : ∀ depth record a s rest, Inv depth record →
      form.finish record s = .ok (a, rest) → P (depth + 1) a := by
    intro depth record a s rest h finish
    unfold Form.finish at finish
    split at finish
    · cases finish
    · rename_i complete
      cases finish
      exact hcomplete depth record a h complete
    · cases finish
  intro s a rest read
  unfold Reader.record at read
  split at read
  · split at read
    · cases read
    · rename_i depth
      obtain ⟨⟨last, after⟩, list, read⟩ := ok_of_bind read
      have kept := gives_readList (hstep depth) 0 (hblank depth) _ last after list
      exact finished depth last a after rest kept read
  · split at read
    · cases read
    · rename_i depth
      obtain ⟨⟨last, after⟩, members, read⟩ := ok_of_bind read
      have kept := gives_readMembers (hstep depth) _ true (hblank depth) _ last after members
      exact finished depth last a after rest kept read
  · cases read

theorem gives_completed {P : α → Prop} (h : ∀ record a, form.complete record = some a → P a)
    (limit : Nat) : Gives (Reader.record form limit) P :=
  @gives_record ρ α form (fun _ => P) (fun _ _ => True) (fun _ => trivial)
    (fun _ _ _ _ _ => Gives.any) (fun _ record a _ complete => h record a complete) limit

end Form

end Toolwright.Json
