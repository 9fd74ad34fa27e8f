import Mathlib.Data.List.Nodup
import Mathlib.Data.List.Perm.Subperm
import Toolwright.Wrapper.Variant

/-!
Variants of an enumeration. There are more candidates for an identifier than taken ones, so the
first candidate that is free is found and no two variants have one identifier. The variants stand
for the values, in their order.
-/

namespace Toolwright.Wrapper

theorem numbered_inj {base : String} {m n : Nat} (hm : 1 ≤ m) (hn : 1 ≤ n)
    (h : numbered base m = numbered base n) : m = n := by
  have grows : ∀ k : Nat, base ++ toString k ≠ base := fun k same => by
    have digits : (toString k).toList ≠ [] := by simp [Nat.toDigits_ne_nil]
    refine digits (@List.append_cancel_left _ base.toList _ _ ?_)
    rw [← String.toList_append, same, List.append_nil]
  by_cases first : m ≤ 1 <;> by_cases second : n ≤ 1
  · omega
  · rw [numbered, numbered, if_pos first, if_neg second] at h
    exact absurd h.symm (grows n)
  · rw [numbered, numbered, if_neg first, if_pos second] at h
    exact absurd h (grows m)
  · rw [numbered, numbered, if_neg first, if_neg second] at h
    have digits : Nat.toDigits 10 m = Nat.toDigits 10 n := by
      have text : base.toList ++ (toString m).toList = base.toList ++ (toString n).toList := by
        rw [← String.toList_append, ← String.toList_append, h]
      simpa using List.append_cancel_left text
    calc m = Nat.ofDigitChars 10 (Nat.toDigits 10 m) 0 := Nat.ofDigitChars_ten_toDigits.symm
      _ = Nat.ofDigitChars 10 (Nat.toDigits 10 n) 0 := by rw [digits]
      _ = n := Nat.ofDigitChars_ten_toDigits

theorem exists_free (taken : List String) (base : String) :
    ∃ m, 1 ≤ m ∧ m ≤ 1 + taken.length ∧ numbered base m ∉ taken := by
  by_contra all
  push Not at all
  let candidates := (List.range' 1 (taken.length + 1)).map (numbered base)
  have distinct : candidates.Nodup := by
    refine (List.nodup_map_iff_inj_on List.nodup_range').2 fun m hm n hn same => ?_
    rw [List.mem_range'_1] at hm hn
    exact numbered_inj hm.1 hn.1 same
  have known : candidates ⊆ taken := fun name hn => by
    obtain ⟨m, hm, rfl⟩ := List.mem_map.1 hn
    rw [List.mem_range'_1] at hm
    exact all m hm.1 (by omega)
  have fewer := (List.subperm_of_subset distinct known).length_le
  rw [List.length_map, List.length_range'] at fewer
  omega

theorem firstFree_spec {taken : List String} {base : String} {fuel n : Nat}
    (free : ∃ m, n ≤ m ∧ m ≤ n + fuel ∧ numbered base m ∉ taken) :
    ∃ m, n ≤ m ∧ firstFree taken base fuel n = numbered base m ∧ numbered base m ∉ taken ∧
      ∀ k, n ≤ k → k < m → numbered base k ∈ taken := by
  induction fuel generalizing n with
  | zero =>
    obtain ⟨m, low, high, new⟩ := free
    obtain rfl : n = m := by omega
    exact ⟨n, low, rfl, new, fun k hk less => absurd less (by omega)⟩
  | succ fuel ih =>
    rw [firstFree]
    by_cases known : numbered base n ∈ taken
    · rw [if_pos (by simpa using known)]
      obtain ⟨m, low, high, new⟩ := free
      have later : n ≠ m := fun same => new (same ▸ known)
      obtain ⟨m, low, found, new, before⟩ := ih (n := n + 1) ⟨m, by omega, by omega, new⟩
      refine ⟨m, by omega, found, new, fun k hk less => ?_⟩
      rcases Nat.eq_or_lt_of_le hk with rfl | hk
      · exact known
      · exact before k hk less
    · rw [if_neg (by simpa using known)]
      exact ⟨n, Nat.le_refl n, rfl, known, fun k hk less => absurd less (by omega)⟩

theorem freshIdent_notMem (taken : List String) (base : String) :
    freshIdent taken base ∉ taken := by
  obtain ⟨m, _, found, new, _⟩ := firstFree_spec (exists_free taken base)
  rw [freshIdent, found]
  exact new

theorem map_value_variantsFrom (taken values : List String) :
    (variantsFrom taken values).map (·.value) = values := by
  induction values generalizing taken with
  | nil => rfl
  | cons value rest ih => rw [variantsFrom, List.map_cons, ih]

theorem nodup_variantsFrom (taken values : List String) :
    ((variantsFrom taken values).map (·.ident)).Nodup ∧
      ∀ v ∈ variantsFrom taken values, v.ident ∉ taken := by
  induction values generalizing taken with
  | nil => exact ⟨List.nodup_nil, List.forall_mem_nil _⟩
  | cons value rest ih =>
    -- what the later ones differ from has the identifier of this one in it
    obtain ⟨distinct, fresh⟩ := ih (freshIdent taken (pascalCase value) :: taken)
    rw [variantsFrom, List.map_cons, List.nodup_cons]
    refine ⟨⟨fun again => ?_, distinct⟩, List.forall_mem_cons.2 ⟨freshIdent_notMem _ _, ?_⟩⟩
    · obtain ⟨v, hv, same⟩ := List.mem_map.1 again
      exact fresh v hv (same ▸ List.mem_cons_self)
    · exact fun v hv known => fresh v hv (List.mem_cons_of_mem _ known)

theorem nodup_idents (e : Enumeration) : ((variants e).map (·.ident)).Nodup :=
  (nodup_variantsFrom [] e.values).1

theorem map_value_variants (e : Enumeration) : (variants e).map (·.value) = e.values :=
  map_value_variantsFrom [] e.values

end Toolwright.Wrapper
