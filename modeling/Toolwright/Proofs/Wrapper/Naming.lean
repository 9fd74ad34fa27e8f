import Mathlib.Order.Bounds.Basic
import Toolwright.Proofs.Wrapper.Shown

/-!
How the variants of an enumeration get their identifiers. A search tries the Pascal-case identifier
of a value first and then its numbered forms, from 2 on, until one is not taken. It makes at most
one pass for every variant in front, so its numbers stay as small as the enumeration is, and it
finds the identifier itself or its least free numbered form. So the identifiers differ from each
other, and values that differ are told apart by what the variants are shown as.
-/

namespace Toolwright.Wrapper

/-- A search that tries an identifier and has a number for the next one: how many passes it makes
and what it finds. The number grows by one with every pass. -/
inductive Search (taken : List String) (base : String) : String → Nat → Nat → String → Prop
  | free {ident : String} {next : Nat} (new : ident ∉ taken) : Search taken base ident next 0 ident
  | again {ident found : String} {next passes : Nat} (known : ident ∈ taken)
      (later : Search taken base (base ++ toString next) (next + 1) passes found) :
      Search taken base ident next (passes + 1) found

/-- The identifier that goes with a base: the base, or the base with the least number from 2 on that
makes it new. -/
inductive Named (taken : List String) (base : String) : String → Prop
  | plain (new : base ∉ taken) : Named taken base base
  | numbered {n : Nat} (known : base ∈ taken)
      (least : IsLeast {n : Nat | 2 ≤ n ∧ base ++ toString n ∉ taken} n) :
      Named taken base (base ++ toString n)

/-- The number of the first numbered form that is not taken. -/
def IsFirstFree (taken : List String) (base : String) (m : Nat) : Prop :=
  IsLeast {n : Nat | 1 ≤ n ∧ numbered base n ∉ taken} m

variable {taken : List String} {base : String}

theorem Search.unique {ident found other : String} {next passes more : Nat}
    (h : Search taken base ident next passes found) (h' : Search taken base ident next more other) :
    more = passes ∧ other = found := by
  induction h generalizing more with
  | free new =>
    cases h' with
    | free => exact ⟨rfl, rfl⟩
    | again known => exact absurd known new
  | again known _ ih =>
    cases h' with
    | free new => exact absurd known new
    | again _ later =>
      obtain ⟨same, rfl⟩ := ih later
      exact ⟨congrArg (· + 1) same, rfl⟩

theorem numbered_one (base : String) : numbered base 1 = base := if_pos (Nat.le_refl 1)

theorem numbered_of_two_le {n : Nat} (h : 2 ≤ n) : numbered base n = base ++ toString n :=
  if_neg (by omega)

theorem search_numbered {k passes : Nat} (low : 1 ≤ k)
    (known : ∀ n, k ≤ n → n < k + passes → numbered base n ∈ taken)
    (new : numbered base (k + passes) ∉ taken) :
    Search taken base (numbered base k) (k + 1) passes (numbered base (k + passes)) := by
  induction passes generalizing k with
  | zero => exact .free new
  | succ passes ih =>
    have shift : k + (passes + 1) = k + 1 + passes := by omega
    rw [shift] at known new ⊢
    refine .again (known k (Nat.le_refl k) (by omega)) ?_
    rw [← numbered_of_two_le (by omega : 2 ≤ k + 1)]
    exact ih (by omega) (fun n hn less => known n (by omega) less) new

/-- What is found is the first numbered form that is free, among as many as there are taken ones and
one more. -/
theorem freshIdent_least (taken : List String) (base : String) :
    ∃ m ≤ taken.length + 1, freshIdent taken base = numbered base m ∧
      IsFirstFree taken base m := by
  obtain ⟨m, low, found, new, before⟩ := firstFree_spec (exists_free taken base)
  obtain ⟨k, hk, few, free⟩ := exists_free taken base
  have least : IsFirstFree taken base m := by
    refine ⟨⟨low, new⟩, fun n hn => ?_⟩
    by_contra less
    exact hn.2 (before n hn.1 (by omega))
  have first : m ≤ k := least.2 ⟨hk, free⟩
  exact ⟨m, by omega, found, least⟩

theorem search_of_isFirstFree {m : Nat} (h : IsFirstFree taken base m) :
    Search taken base base 2 (m - 1) (numbered base m) := by
  obtain ⟨⟨low, new⟩, least⟩ := h
  have whole : 1 + (m - 1) = m := by omega
  have known : ∀ n, 1 ≤ n → n < 1 + (m - 1) → numbered base n ∈ taken := fun n hn less => by
    by_contra free
    have first : m ≤ n := least ⟨hn, free⟩
    omega
  have search := search_numbered (Nat.le_refl 1) known (by rwa [whole])
  rwa [whole, numbered_one] at search

theorem named_of_isFirstFree {m : Nat} (h : IsFirstFree taken base m) :
    Named taken base (numbered base m) := by
  obtain ⟨⟨low, new⟩, least⟩ := h
  rcases Nat.eq_or_lt_of_le low with rfl | high
  · rw [numbered_one] at new ⊢
    exact .plain new
  · have known : base ∈ taken := by
      by_contra free
      have first : m ≤ 1 := least ⟨Nat.le_refl 1, by rwa [numbered_one]⟩
      omega
    rw [numbered_of_two_le high] at new ⊢
    refine .numbered known ⟨⟨high, new⟩, fun n ⟨two, free⟩ => ?_⟩
    exact least ⟨by omega, by rwa [numbered_of_two_le two]⟩

theorem ident_variantsFrom {taken values : List String} {before after : List Variant} {v : Variant}
    (h : variantsFrom taken values = before ++ v :: after) :
    v.ident = freshIdent ((before.map (·.ident)).reverse ++ taken) (pascalCase v.value) := by
  induction before generalizing taken values with
  | nil =>
    cases values with
    | nil => cases h
    | cons value rest =>
      obtain ⟨rfl, _⟩ := List.cons.inj h
      rfl
  | cons first before ih =>
    cases values with
    | nil => cases h
    | cons value rest =>
      obtain ⟨rfl, later⟩ := List.cons.inj h
      rw [ih later, List.map_cons, List.reverse_cons, List.append_assoc, List.singleton_append]

theorem ident_least {e : Enumeration} {before after : List Variant} {v : Variant}
    (h : variants e = before ++ v :: after) :
    ∃ m ≤ before.length + 1, v.ident = numbered (pascalCase v.value) m ∧
      IsFirstFree (before.map (·.ident)) (pascalCase v.value) m := by
  obtain ⟨m, few, found, least⟩ :=
    freshIdent_least ((before.map (·.ident)).reverse ++ []) (pascalCase v.value)
  rw [← ident_variantsFrom h] at found
  simp only [IsFirstFree, List.append_nil, List.mem_reverse] at least
  simp only [List.append_nil, List.length_reverse, List.length_map] at few
  exact ⟨m, few, found, least⟩

theorem shown?_eq_some {e : Enumeration} {ident value : String} :
    (EnumerationItem.ofEnumeration e).shown? ident = some value ↔ ⟨ident, value⟩ ∈ variants e := by
  refine ⟨fun shown => ?_, shown?_variant⟩
  rw [EnumerationItem.shown?, arms_ofEnumeration] at shown
  obtain ⟨l₁, l₂, whole, _⟩ := List.lookup_eq_some_iff.1 shown
  have pair : (ident, value) ∈ (variants e).map fun v => (v.ident, v.value) :=
    whole ▸ List.mem_append_right _ List.mem_cons_self
  obtain ⟨v, hv, same⟩ := List.mem_map.1 pair
  obtain ⟨rfl, rfl⟩ := Prod.mk.inj same
  exact hv

theorem nodup_values_iff (e : Enumeration) :
    e.values.Nodup ↔ ∀ v ∈ variants e, ∀ w ∈ variants e, v.ident ≠ w.ident →
      (EnumerationItem.ofEnumeration e).shown? v.ident ≠
        (EnumerationItem.ofEnumeration e).shown? w.ident := by
  have idents := nodup_idents e
  rw [← map_value_variants e, List.nodup_map_iff_inj_on idents.of_map]
  refine forall₄_congr fun v hv w hw => ?_
  rw [shown?_variant hv, shown?_variant hw, Option.some_inj.ne]
  constructor
  · exact fun values other same => other (congrArg (·.ident) (values same))
  · exact fun values same => by_contra fun other =>
      values (fun ident => other (List.inj_on_of_nodup_map idents hv hw ident)) same

/-- Variants are named one to one. -/
theorem variants_named (e : Enumeration) :
    (variants e).map (·.value) = e.values ∧
    ((variants e).map (·.ident)).Nodup ∧
    (∀ before v after, variants e = before ++ v :: after →
      (∃ passes ≤ before.length, ∀ more found,
        Search (before.map (·.ident)) (pascalCase v.value) (pascalCase v.value) 2 more found ↔
          more = passes ∧ found = v.ident) ∧
      Named (before.map (·.ident)) (pascalCase v.value) v.ident) ∧
    (∀ ident value, (EnumerationItem.ofEnumeration e).shown? ident = some value ↔
      ⟨ident, value⟩ ∈ variants e) ∧
    (e.values.Nodup ↔ ∀ v ∈ variants e, ∀ w ∈ variants e, v.ident ≠ w.ident →
      (EnumerationItem.ofEnumeration e).shown? v.ident ≠
        (EnumerationItem.ofEnumeration e).shown? w.ident) := by
  refine ⟨map_value_variants e, nodup_idents e, fun before v after whole => ?_,
    fun ident value => shown?_eq_some, nodup_values_iff e⟩
  obtain ⟨m, few, name, least⟩ := ident_least whole
  have search := search_of_isFirstFree least
  rw [← name] at search
  refine ⟨⟨m - 1, by omega, fun more found => ⟨search.unique, ?_⟩⟩,
    name ▸ named_of_isFirstFree least⟩
  rintro ⟨rfl, rfl⟩
  exact search

/-- Values of which the second would be called like the first, and the third like the second
then. -/
def letters : Enumeration := { name := "Letter", values := ["a", "A", "a2"] }

theorem variants_named_letters :
    letters.values.Nodup ∧ variants letters = [⟨"A", "a"⟩, ⟨"A2", "A"⟩, ⟨"A22", "a2"⟩] ∧
      Named ["A", "A2"] "A2" "A22" ∧
      (EnumerationItem.ofEnumeration letters).shown? "A2" ≠
        (EnumerationItem.ofEnumeration letters).shown? "A22" := by
  have distinct : letters.values.Nodup := by decide
  have named : variants letters = [⟨"A", "a"⟩, ⟨"A2", "A"⟩, ⟨"A22", "a2"⟩] := by decide
  obtain ⟨_, _, search, _, apart⟩ := variants_named letters
  have last := (search [⟨"A", "a"⟩, ⟨"A2", "A"⟩] ⟨"A22", "a2"⟩ [] named).2
  exact ⟨distinct, named, last, apart.1 distinct ⟨"A2", "A"⟩ (by rw [named]; simp) ⟨"A22", "a2"⟩
    (by rw [named]; simp) (by decide)⟩

end Toolwright.Wrapper
