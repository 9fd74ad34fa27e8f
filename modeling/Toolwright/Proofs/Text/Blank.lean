import Mathlib.Data.List.DropRight
import Mathlib.Data.List.Infix
import Toolwright.Text.Blank

/-!
What is cut off at the ends of a text, and how a text that has no white space at its ends is got
back from one that has.
-/

namespace Toolwright.Text

def Blanks (s : List Char) : Prop := ∀ c ∈ s, isBlank c = true

theorem Blanks.nil : Blanks [] := fun _ h => absurd h List.not_mem_nil

theorem Blanks.append {s t : List Char} (hs : Blanks s) (ht : Blanks t) : Blanks (s ++ t) :=
  fun c hc => (List.mem_append.1 hc).elim (hs c) (ht c)

structure Bare (s : List Char) : Prop where
  first : ∀ c ∈ s.head?, isBlank c = false
  last : ∀ c ∈ s.getLast?, isBlank c = false

theorem Bare.of_forall {s : List Char} (h : ∀ c ∈ s, isBlank c = false) : Bare s :=
  ⟨fun c hc => h c (List.mem_of_mem_head? hc), fun c hc => h c (List.mem_of_mem_getLast? hc)⟩

theorem Bare.of_ends {c : Char} {s t : List Char} (first : isBlank c = false) (some_ : t ≠ [])
    (last : ∀ d ∈ t.getLast?, isBlank d = false) : Bare (c :: (s ++ t)) := by
  constructor
  · rintro _ ⟨⟩
    exact first
  · intro d hd
    refine last d ?_
    have there := List.getLast?_eq_some_getLast some_
    rw [← List.cons_append, List.getLast?_append, there, Option.some_or] at hd
    rwa [there]

theorem mem_head?_append {s t : List Char} {c : Char} (h : c ∈ (s ++ t).head?) :
    c ∈ s.head? ∨ c ∈ t.head? := by
  cases s with
  | nil => exact .inr h
  | cons d s => exact .inl h

theorem mem_getLast?_append {s t : List Char} {c : Char} (h : c ∈ (s ++ t).getLast?) :
    c ∈ s.getLast? ∨ c ∈ t.getLast? := by
  simp only [← List.head?_reverse, List.reverse_append] at h ⊢
  exact (mem_head?_append h).symm

theorem dropWhile_eq_self {p : Char → Bool} {s : List Char} (h : ∀ c ∈ s.head?, p c = false) :
    s.dropWhile p = s := by
  cases s with
  | nil => rfl
  | cons c rest => exact List.dropWhile_cons_of_neg (by simp [h c rfl])

theorem head?_dropWhile {p : Char → Bool} (s : List Char) :
    ∀ c ∈ (s.dropWhile p).head?, p c = false := by
  intro c hc
  have first := List.head?_dropWhile_not p s
  rw [Option.mem_def.1 hc] at first
  exact first

theorem dropEnd_eq_rdropWhile {α : Type} (p : α → Bool) (s : List α) :
    dropEnd p s = s.rdropWhile p := rfl

theorem trimStart_append {b s : List Char} (hb : Blanks b) (h : ∀ c ∈ s.head?, isBlank c = false) :
    trimStart (b ++ s) = s := by
  rw [trimStart, List.dropWhile_append_of_pos hb, dropWhile_eq_self h]

theorem dropEnd_append {p : Char → Bool} {b s : List Char} (hb : ∀ c ∈ b, p c = true)
    (h : ∀ c ∈ s.getLast?, p c = false) : dropEnd p (s ++ b) = s := by
  have first : ∀ c ∈ s.reverse.head?, p c = false := by simpa using h
  rw [dropEnd, List.reverse_append, List.dropWhile_append_of_pos (by simpa using hb),
    dropWhile_eq_self first, List.reverse_reverse]

theorem exists_dropEnd (p : Char → Bool) (s : List Char) :
    ∃ b, (∀ c ∈ b, p c = true) ∧ s = dropEnd p s ++ b :=
  ⟨s.rtakeWhile p, fun _ => List.mem_rtakeWhile_imp, List.rdropWhile_append_rtakeWhile.symm⟩

theorem getLast?_dropEnd {p : Char → Bool} (s : List Char) :
    ∀ c ∈ (dropEnd p s).getLast?, p c = false := by
  intro c hc
  obtain ⟨some_, rfl⟩ := List.mem_getLast?_eq_getLast hc
  exact Bool.eq_false_iff.2 (List.rdropWhile_last_not p s some_)

theorem trimEnd_append {b s : List Char} (hb : Blanks b)
    (h : ∀ c ∈ s.getLast?, isBlank c = false) : trimEnd (s ++ b) = s := dropEnd_append hb h

theorem exists_trimStart (s : List Char) : ∃ b, Blanks b ∧ s = b ++ trimStart s :=
  ⟨s.takeWhile isBlank, List.all_eq_true.1 List.all_takeWhile,
    List.takeWhile_append_dropWhile.symm⟩

theorem exists_trimEnd (s : List Char) : ∃ b, Blanks b ∧ s = trimEnd s ++ b :=
  exists_dropEnd isBlank s

theorem exists_trim (s : List Char) :
    ∃ b₁ b₂, Blanks b₁ ∧ Blanks b₂ ∧ s = b₁ ++ (trim s ++ b₂) := by
  obtain ⟨b₁, first, whole⟩ := exists_trimStart s
  obtain ⟨b₂, last, inner⟩ := exists_trimEnd (trimStart s)
  exact ⟨b₁, b₂, first, last, by rw [trim, ← inner, ← whole]⟩

theorem bare_trim (s : List Char) : Bare (trim s) := by
  obtain ⟨b, -, whole⟩ := exists_trimEnd (trimStart s)
  constructor
  · intro c hc
    refine head?_dropWhile (p := isBlank) s c ?_
    change (trimEnd (trimStart s)).head? = some c at hc
    change (trimStart s).head? = some c
    rw [whole, List.head?_append, hc, Option.some_or]
  · exact getLast?_dropEnd (trimStart s)

theorem trim_pad {b₁ b₂ s : List Char} (h : Bare s) (h₁ : Blanks b₁) (h₂ : Blanks b₂) :
    trim (b₁ ++ (s ++ b₂)) = s := by
  cases s with
  | nil =>
    rw [trim, List.nil_append, ← List.append_nil (b₁ ++ b₂),
      trimStart_append (h₁.append h₂) (by simp), trimEnd_nil]
  | cons c rest =>
    rw [trim, trimStart_append h₁ (by simpa using h.first), trimEnd_append h₂ h.last]

theorem trim_of_bare {s : List Char} (h : Bare s) : trim s = s := by
  have cut := trim_pad h Blanks.nil Blanks.nil
  rwa [List.nil_append, List.append_nil] at cut

theorem trim_around {b₁ b₂ : List Char} (h₁ : Blanks b₁) (h₂ : Blanks b₂) (s : List Char) :
    trim (b₁ ++ (s ++ b₂)) = trim s := by
  obtain ⟨a₁, a₂, ha₁, ha₂, whole⟩ := exists_trim s
  have longer : b₁ ++ (s ++ b₂) = (b₁ ++ a₁) ++ (trim s ++ (a₂ ++ b₂)) := by
    conv_lhs => rw [whole]
    simp only [List.append_assoc]
  rw [longer, trim_pad (bare_trim s) (h₁.append ha₁) (ha₂.append h₂)]

theorem trim_eq_nil {s : List Char} : trim s = [] ↔ Blanks s := by
  constructor
  · intro empty
    obtain ⟨b₁, b₂, first, last, whole⟩ := exists_trim s
    rw [empty, List.nil_append] at whole
    rw [whole]
    exact fun c hc => (List.mem_append.1 hc).elim (first c) (last c)
  · intro blank
    have cut := trim_pad (Bare.of_forall (s := []) (List.forall_mem_nil _)) blank Blanks.nil
    rwa [List.append_nil, List.append_nil] at cut

theorem exists_trim_of_last {s : List Char} (h : ∀ c ∈ s.getLast?, isBlank c = false) :
    ∃ b, Blanks b ∧ s = b ++ trim s := by
  obtain ⟨b, blanks, whole⟩ := exists_trimStart s
  have last : ∀ c ∈ (trimStart s).getLast?, isBlank c = false := by
    intro c hc
    refine h c ?_
    rw [whole, List.getLast?_append, Option.mem_def.1 hc, Option.some_or]
    rfl
  have same : trim s = trimStart s := by
    have cut := trimEnd_append Blanks.nil last
    rwa [List.append_nil] at cut
  exact ⟨b, blanks, by rw [same, ← whole]⟩

end Toolwright.Text
