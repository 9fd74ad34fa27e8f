import Toolwright.Proofs.Text.Part
import Toolwright.Text.Blank
import Toolwright.Text.Lines

/-!
Lines of texts that are put together. A text in front of a line feed gives the lines that its own
line feeds cut it into, the last one ended; so the lines of a text made of lines are the pieces of
these. No line has a line feed in it, and none gets one by cutting off white space.
-/

namespace Toolwright.Text

def pieces (s : List Char) : List (List Char) := splitAt (· == '\n') s

theorem pieces_of_notMem {s : List Char} (h : '\n' ∉ s) : pieces s = [s] := by
  rw [pieces, splitAt_eq_splitOnP]
  exact List.splitOnP_eq_singleton fun c hc => by
    rw [beq_eq_false_iff_ne]
    rintro rfl
    exact h hc

theorem lines_of_notMem {s : List Char} (h : '\n' ∉ s) (nonempty : s ≠ []) : lines s = [s] := by
  induction s with
  | nil => exact absurd rfl nonempty
  | cons c s ih =>
    have other : c ≠ '\n' := (List.ne_of_not_mem_cons h).symm
    rw [lines, if_neg other]
    cases s with
    | nil => rfl
    | cons d s => rw [ih (List.not_mem_of_not_mem_cons h) (List.cons_ne_nil d s)]

theorem pieces_append {s : List Char} (h : '\n' ∉ s) (t : List Char) :
    pieces (s ++ t) = (s ++ (pieces t).headD []) :: (pieces t).tail := by
  obtain ⟨before, last, first, more, whole, tail, both⟩ := splitAt_append (· == '\n') s t
  have alone := pieces_of_notMem h
  rw [pieces, whole] at alone
  obtain ⟨rfl, rfl⟩ : before = [] ∧ last = s := by
    cases before with
    | nil => simpa using alone
    | cons piece before => simp at alone
  simp [pieces, tail, both]

theorem lines_append_feed (s rest : List Char) :
    lines (s ++ '\n' :: rest) = pieces s ++ lines rest := by
  unfold pieces
  induction s with
  | nil => simp [splitAt]
  | cons c s ih =>
    by_cases feed : c = '\n'
    · simp [feed, splitAt, ih]
    · cases cut : splitAt (· == '\n') s with
      | nil => exact absurd cut (splitAt_ne_nil _ s)
      | cons first more =>
        rw [cut] at ih
        simp [lines, splitAt, feed, cut, ih]

theorem length_pieces (s : List Char) : (pieces s).length = s.count '\n' + 1 := by
  unfold pieces
  induction s with
  | nil => rfl
  | cons c s ih =>
    by_cases feed : c = '\n'
    · simp [splitAt, feed, ih]
    · cases cut : splitAt (· == '\n') s with
      | nil => exact absurd cut (splitAt_ne_nil _ s)
      | cons first more =>
        rw [cut] at ih
        simpa [splitAt, feed, cut] using ih

theorem lineCount_ended (s : List Char) : lineCount (s ++ ['\n']) = s.count '\n' + 1 := by
  rw [lineCount, lines_append_feed, lines_nil, List.append_nil, length_pieces]

theorem lines_flatMap_feed (texts : List (List Char)) :
    lines (texts.flatMap (· ++ ['\n'])) = texts.flatMap pieces := by
  induction texts with
  | nil => rfl
  | cons s rest ih =>
    rw [List.flatMap_cons, List.flatMap_cons, List.append_assoc, List.singleton_append,
      lines_append_feed, ih]

theorem feed_notMem_of_mem_lines {s line : List Char} (h : line ∈ lines s) : '\n' ∉ line := by
  induction s generalizing line with
  | nil => exact absurd h List.not_mem_nil
  | cons c s ih =>
    by_cases feed : c = '\n'
    · rw [feed, lines_feed] at h
      rcases List.mem_cons.1 h with rfl | h
      · exact List.not_mem_nil
      · exact ih h
    · rw [lines, if_neg feed] at h
      split at h
      · obtain rfl : line = [c] := by simpa using h
        simpa using Ne.symm feed
      · rename_i first more cut
        rw [cut] at ih
        rcases List.mem_cons.1 h with rfl | h
        · simpa using ⟨Ne.symm feed, ih List.mem_cons_self⟩
        · exact ih (List.mem_cons_of_mem _ h)

end Toolwright.Text
