import Toolwright.Description.Reader
import Toolwright.Description.Canonical
import Toolwright.Proofs.Json.RoundTrip

/-!
Reading records that were written as objects. A form `Fills` its partial record from members that
stand in some order, each read by the member of its key; an object of such members is read as the
completed record. A member that is left out for being zero leaves its place in the record empty,
which `Keeps` says together with what is read otherwise.
-/

namespace Toolwright.Json

open Reader

theorem reads_string (s : String) : Reads Reader.string (string s) s := by
  intro gap level rest blanks _
  rw [pretty, writeString_append, Reader.string, skipBlank_gap blanks (by rfl)]
  exact stringTail_escaped s rest

theorem reads_bool (b : Bool) : Reads Reader.bool (bool b) b := by
  intro gap level rest blanks _
  cases b with
  | true =>
    have start : skipBlank (gap ++ ((bool true).pretty level ++ rest)) =
        't' :: 'r' :: 'u' :: 'e' :: rest := skipBlank_gap blanks (by rfl) _
    simp only [Reader.bool, start]
    rfl
  | false =>
    have start : skipBlank (gap ++ ((bool false).pretty level ++ rest)) =
        'f' :: 'a' :: 'l' :: 's' :: 'e' :: rest := skipBlank_gap blanks (by rfl) _
    simp only [Reader.bool, start]
    rfl

theorem reads_optionalText (limit : Nat) (s : String) :
    Reads (optionalText limit) (string s) (some s) := by
  intro gap level rest blanks ends
  have read : Reader.string ('"' :: (s.toList.flatMap escape ++ '"' :: rest)) = .ok (s, rest) := by
    have plain := reads_string s [] level rest (by simp) ends
    rwa [pretty, writeString_append, List.nil_append] at plain
  rw [pretty, writeString_append, optionalText, Reader.optional, skipBlank_gap blanks (by rfl)]
  change (Reader.string _ >>= fun p => Except.ok (some p.1, p.2)) = _
  rw [read]
  rfl

theorem reads_list {α β : Type} {item : Nat → Reader α} {limit : Nat} {tree : β → Json}
    {f : β → α} {xs : List β} (hread : ∀ x ∈ xs, Reads (item limit) (tree x) (f x))
    (hbegin : ∀ x ∈ xs, ∀ level, BeginsItem ((tree x).pretty level)) :
    Reads (Reader.list item (limit + 1)) (array (xs.map tree)) (xs.map f) := by
  intro gap level rest blanks _
  obtain ⟨s, text, read⟩ := items_pretty hread hbegin level rest
  rw [text, Reader.list, skipBlank_gap blanks (by rfl)]
  exact read

/-- What a member that may be left out becomes: nothing when its value is zero, else what is read
from the value. -/
def Keeps {γ : Type} (reader : Reader γ) (value : Json) (kept : Option γ) : Prop :=
  if value.isZero then kept = none else ∃ x, kept = some x ∧ Reads reader value x

namespace Form

variable {ρ α : Type}

inductive Fills (form : Form ρ α) (depth : Nat) : ρ → List (String × Json) → ρ → Prop where
  | nil (record : ρ) : Fills form depth record [] record
  | cons {key : String} {value : Json} {rest : List (String × Json)} {record next last : ρ}
      {m : Member ρ} (find : form.member? key = some m) (empty : m.filled record = false)
      (read : Reads (m.read depth record) value next) (more : Fills form depth next rest last) :
      Fills form depth record ((key, value) :: rest) last

variable {form : Form ρ α} {depth : Nat} {record next last : ρ}

theorem Fills.append {before behind : List (String × Json)}
    (h : form.Fills depth record before next) (h' : form.Fills depth next behind last) :
    form.Fills depth record (before ++ behind) last := by
  induction h with
  | nil record => exact h'
  | cons find empty read _ ih => exact .cons find empty read (ih h')

theorem reads_memberOf {γ : Type} {key : String} {required : Bool} {get : ρ → Option γ}
    {set : γ → ρ → ρ} {reader : Nat → Reader γ} {value : Json} {a : γ}
    (h : Reads (reader depth) value a) (record : ρ) :
    Reads ((memberOf key required get set reader).read depth record) value (set a record) := by
  intro gap level rest blanks ends
  simp only [memberOf, bind, Except.bind, h gap level rest blanks ends]

theorem Fills.always {γ : Type} {key : String} {required : Bool} {get : ρ → Option γ}
    {set : γ → ρ → ρ} {reader : Nat → Reader γ} {value : Json} {a : γ}
    (find : form.member? key = some (memberOf key required get set reader))
    (empty : (get record).isSome = false) (fill : set a record = next)
    (h : Reads (reader depth) value a) : form.Fills depth record [(key, value)] next :=
  .cons find empty (fill ▸ reads_memberOf h record) (.nil _)

theorem Fills.optional {γ : Type} {key : String} {required : Bool} {get : ρ → Option γ}
    {set : γ → ρ → ρ} {reader : Nat → Reader γ} {value : Json} {kept : Option γ}
    (put : Option γ → ρ → ρ)
    (find : form.member? key = some (memberOf key required get set reader))
    (empty : (get record).isSome = false) (put_none : put none record = record)
    (put_some : ∀ a, put (some a) record = set a record) (fill : put kept record = next)
    (h : Keeps (reader depth) value kept) :
    form.Fills depth record (optionalMember key value) next := by
  subst fill
  unfold Keeps at h
  unfold optionalMember
  split at h
  · rename_i zero
    rw [if_pos zero, h, put_none]
    exact .nil _
  · rename_i present
    obtain ⟨a, rfl, read⟩ := h
    rw [if_neg present, put_some]
    exact .always find empty rfl read

theorem readMembers_memberTexts {members : List (String × Json)}
    (h : form.Fills depth record members last) {fuel : Nat} (hfuel : members.length < fuel)
    (first : Bool) (level outer : Nat) (rest : List Char) :
    form.readMembers depth fuel first record
        (memberTexts level (newLine outer ++ '\x7d' :: rest) first members) = .ok (last, rest) := by
  induction h generalizing fuel first with
  | nil record =>
    cases fuel with
    | zero => simp at hfuel
    | succ fuel =>
      simp only [memberTexts, readMembers, memberStart_close, bind, Except.bind]
  | cons find empty read _ ih =>
    rename_i value members _ _ _ _ _
    cases fuel with
    | zero => simp at hfuel
    | succ fuel =>
      have more := @ih fuel (by simpa using hfuel) false
      have value := read [' '] level _ (by simp [isBlank])
        (endsValue_memberTexts level outer ('\x7d' :: rest) members)
      simp only [memberTexts, readMembers, memberStart_key, stringTail_escaped, colon_colon, bind,
        Except.bind, find, empty, Bool.false_eq_true, if_false, value, more]

theorem readMembers_pretty {members : List (String × Json)}
    (h : form.Fills depth record members last) (level : Nat) (rest : List Char) :
    ∃ s, (object members).pretty level ++ rest = '\x7b' :: s ∧
      form.readMembers depth (s.length + 1) true record s = .ok (last, rest) := by
  refine ⟨_, pretty_object_append level members rest, ?_⟩
  cases members with
  | nil =>
    cases h with
    | nil => simp [readMembers, memberStart, skipBlank, isBlank, bind, Except.bind]
  | cons m more =>
    have fuel := length_le_memberTexts (level + 1)
      (newLine level ++ '\x7d' :: rest) true (m :: more)
    rw [if_neg (List.cons_ne_nil m more)]
    exact readMembers_memberTexts h (by omega) true (level + 1) level rest

theorem reads_record {members : List (String × Json)} {a : α}
    (h : form.Fills depth form.blank members last) (hmissing : form.missing? last = none)
    (hcomplete : form.complete last = some a) :
    Reads (Reader.record form (depth + 1)) (object members) a := by
  intro gap level rest blanks _
  obtain ⟨s, text, read⟩ := readMembers_pretty h level rest
  rw [text, Reader.record, skipBlank_gap blanks (by rfl)]
  simp only [bind, Except.bind, read, finish, hmissing, hcomplete]

end Form

end Toolwright.Json
