import Toolwright.Text.Part

/-!
Pieces of a text, which are those of `List.splitOnP`. No piece has a separator in it, and the pieces
of a text that is put together are those of its parts with the two at the seam made one. A text
occurs in another where it is a connected piece of it.
-/

namespace Toolwright.Text

theorem splitAt_eq_splitOnP (p : Char → Bool) (s : List Char) : splitAt p s = s.splitOnP p := by
  induction s with
  | nil => rfl
  | cons c rest ih =>
    rw [List.splitOnP_cons_eq_if_modifyHead, ← ih, splitAt]
    split
    · rfl
    · cases pieces : splitAt p rest with
      | nil => exact absurd (ih.symm.trans pieces) (List.splitOnP_ne_nil p rest)
      | cons first more => rfl

theorem splitAt_eq_splitOn (c : Char) (s : List Char) : splitAt (· == c) s = s.splitOn c := by
  rw [splitAt_eq_splitOnP, List.splitOn_eq_splitOnP]

theorem splitAt_ne_nil (p : Char → Bool) (s : List Char) : splitAt p s ≠ [] :=
  splitAt_eq_splitOnP p s ▸ List.splitOnP_ne_nil p s

theorem splitAt_append (p : Char → Bool) (s t : List Char) :
    ∃ before last first more, splitAt p s = before ++ [last] ∧ splitAt p t = first :: more ∧
      splitAt p (s ++ t) = before ++ (last ++ first) :: more := by
  induction s with
  | nil =>
    cases pieces : splitAt p t with
    | nil => exact absurd pieces (splitAt_ne_nil p t)
    | cons first more => exact ⟨[], [], first, more, rfl, rfl, pieces⟩
  | cons c rest ih =>
    obtain ⟨before, last, first, more, hs, ht, both⟩ := ih
    by_cases cut : p c = true
    · refine ⟨[] :: before, last, first, more, ?_, ht, ?_⟩
      · simp [splitAt, cut, hs]
      · simp [splitAt, cut, both]
    · cases before with
      | nil =>
        refine ⟨[], c :: last, first, more, ?_, ht, ?_⟩
        · simp [splitAt, cut, hs]
        · simp [splitAt, cut, both]
      | cons piece before =>
        refine ⟨(c :: piece) :: before, last, first, more, ?_, ht, ?_⟩
        · simp [splitAt, cut, hs]
        · simp [splitAt, cut, both]

theorem of_mem_splitAt {p : Char → Bool} {s piece : List Char} (h : piece ∈ splitAt p s) :
    ∀ c ∈ piece, c ∈ s ∧ p c = false := by
  induction s generalizing piece with
  | nil =>
    obtain rfl : piece = [] := by simpa [splitAt] using h
    exact List.forall_mem_nil _
  | cons d rest ih =>
    have deeper : ∀ piece ∈ splitAt p rest, ∀ c ∈ piece, c ∈ d :: rest ∧ p c = false :=
      fun piece hp c hc => ⟨List.mem_cons_of_mem _ (ih hp c hc).1, (ih hp c hc).2⟩
    by_cases cut : p d = true
    · rw [splitAt, if_pos cut] at h
      rcases List.mem_cons.1 h with rfl | later
      · exact List.forall_mem_nil _
      · exact deeper piece later
    · rw [splitAt, if_neg cut] at h
      cases pieces : splitAt p rest with
      | nil => exact absurd pieces (splitAt_ne_nil p rest)
      | cons first more =>
        rw [pieces] at h deeper
        rcases List.mem_cons.1 h with rfl | later
        · exact List.forall_mem_cons.2
            ⟨⟨List.mem_cons_self, by simpa using cut⟩, deeper first List.mem_cons_self⟩
        · exact deeper piece (List.mem_cons_of_mem _ later)

theorem intercalate_snoc {c : Char} {pieces : List (List Char)} (nonempty : pieces ≠ [])
    (last : List Char) :
    [c].intercalate (pieces ++ [last]) = [c].intercalate pieces ++ c :: last := by
  induction pieces with
  | nil => exact absurd rfl nonempty
  | cons piece rest ih =>
    cases rest with
    | nil => simp [List.intercalate]
    | cons next rest =>
      have later := ih (List.cons_ne_nil next rest)
      rw [List.cons_append] at later ⊢
      rw [List.cons_append, List.intercalate_cons_cons, later, List.intercalate_cons_cons,
        List.append_assoc _ _ (c :: last)]

theorem occursIn_iff {part s : List Char} : occursIn part s = true ↔ part <:+: s := by
  induction s with
  | nil => simp [occursIn]
  | cons c rest ih =>
    rw [occursIn, Bool.or_eq_true, List.isPrefixOf_iff_prefix, ih, List.infix_cons_iff]

end Toolwright.Text
