import Mathlib.Data.String.Basic
import Toolwright.Proofs.Files.Directory
import Toolwright.Proofs.Files.Name

/-!
Paths and the paths above them. What a path means to the system is its moves: the names and the
steps upwards, without the parts that stay where they are. The path above another one has all of
its moves but the last, begins at the same place, and is written with fewer characters of the same
text.
-/

namespace Toolwright

namespace Text

theorem intercalate_sublist {c : Char} {xs ys : List (List Char)} (h : xs.Sublist ys) :
    ([c].intercalate xs).Sublist ([c].intercalate ys) := by
  induction h with
  | slnil => exact .refl _
  | @cons xs ys y h ih =>
    cases ys with
    | nil =>
      obtain rfl := List.sublist_nil.1 h
      simp [List.intercalate]
    | cons next rest =>
      have text : [c].intercalate (y :: next :: rest) = (y ++ [c]) ++
          [c].intercalate (next :: rest) := by
        simp [List.intercalate]
      rw [text]
      exact ih.trans (List.sublist_append_right _ _)
  | @cons_cons xs ys x h ih =>
    cases ys with
    | nil =>
      obtain rfl := List.sublist_nil.1 h
      exact .refl _
    | cons next rest =>
      have text : [c].intercalate (x :: next :: rest) = (x ++ [c]) ++
          [c].intercalate (next :: rest) := by
        simp [List.intercalate]
      rw [text]
      cases xs with
      | nil => simp [List.intercalate, List.append_assoc]
      | cons first more =>
        have shorter : [c].intercalate (x :: first :: more) =
            (x ++ [c]) ++ [c].intercalate (first :: more) := by
          simp [List.intercalate]
        rw [shorter]
        exact ih.append_left _

end Text

namespace Files.Tree

open Toolwright.Path (Step)

def Part.moves : Part → Bool
  | .stay => false
  | _ => true

def movesOf (p : Path) : List Part := (partsOf p).filter Part.moves

def stepPart : Step → Part
  | .root => .stay
  | .here => .stay
  | .up => .up
  | .entry name => .name name

def Inner (s : Step) : Prop := s = .up ∨ ∃ name, s = .entry name ∧ IsName name

theorem inner_of_stepOf {piece : List Char} {s : Step} (h : Path.stepOf piece = some s)
    (plain : ∀ c ∈ piece, (c == '/') = false) :
    Inner s ∧ (stepText s).toList = piece ∧ partOf piece = stepPart s := by
  unfold Path.stepOf at h
  split at h
  · cases h
  · rename_i visible
    split at h
    · rename_i up
      cases h
      exact ⟨.inl rfl, by simp [stepText, up], by simp [partOf, up, stepPart]⟩
    · rename_i down
      cases h
      have named : partOf piece = .name (String.ofList piece) := by simp [partOf, visible, down]
      exact ⟨.inr ⟨_, rfl, (isName_of_partOf named plain).1⟩, by simp [stepText], named⟩

theorem Inner.text {s : Step} (h : Inner s) :
    (∀ c ∈ (stepText s).toList, (c == '/') = false) ∧ partOf (stepText s).toList = stepPart s ∧
      (stepPart s).moves = true := by
  rcases h with rfl | ⟨name, rfl, isName⟩
  · exact ⟨by simp [stepText], rfl, rfl⟩
  · refine ⟨fun c hc => ?_, isName.partOf, rfl⟩
    have other : c ≠ '/' := fun slash => isName.plain (slash ▸ hc)
    simpa using other

theorem Inner.text_ne {s : Step} (h : Inner s) : (stepText s).toList ≠ [] := by
  intro empty
  have stays := h.text.2.1
  have moving := h.text.2.2
  rw [empty] at stays
  rw [← stays] at moving
  cases moving

theorem stepOf_eq_none {piece : List Char} (h : Path.stepOf piece = none) :
    partOf piece = .stay := by
  unfold Path.stepOf at h
  split at h
  · rename_i hidden
    simp [partOf, hidden]
  · split at h <;> cases h

theorem inner_pieces {pieces : List (List Char)}
    (plain : ∀ piece ∈ pieces, ∀ c ∈ piece, (c == '/') = false) :
    (∀ s ∈ pieces.filterMap Path.stepOf, Inner s) ∧
      (pieces.map partOf).filter Part.moves = (pieces.filterMap Path.stepOf).map stepPart ∧
      ((pieces.filterMap Path.stepOf).map fun s => (stepText s).toList).Sublist pieces := by
  induction pieces with
  | nil => simp
  | cons piece rest ih =>
    obtain ⟨own, others⟩ := List.forall_mem_cons.1 plain
    obtain ⟨inner, moves, texts⟩ := ih others
    cases step : Path.stepOf piece with
    | none =>
      have stays := stepOf_eq_none step
      rw [List.filterMap_cons_none step]
      exact ⟨inner, by simpa [stays, Part.moves] using moves, texts.cons _⟩
    | some s =>
      obtain ⟨first, text, part⟩ := inner_of_stepOf step own
      rw [List.filterMap_cons_some step]
      refine ⟨List.forall_mem_cons.2 ⟨first, inner⟩, ?_, ?_⟩
      · simpa [part, first.text.2.2] using moves
      · simpa [text] using texts

theorem steps_cases (p : Path) : ∃ first rest : List Step, p.steps = first ++ rest ∧
    (∀ s ∈ rest, Inner s) ∧ movesOf p = rest.map stepPart ∧
    (p.steps.map fun s => (stepText s).toList).Sublist (Text.splitAt (· == '/') p.text.toList) ∧
    ((first = [.root] ∧ p.isAbsolute = true) ∨
      ((first = [] ∨ first = [.here]) ∧ p.isAbsolute = false)) := by
  have plain : ∀ piece ∈ Text.splitAt (· == '/') p.text.toList, ∀ c ∈ piece, (c == '/') = false :=
    fun piece hp c hc => (Text.of_mem_splitAt hp c hc).2
  obtain ⟨inner, moves, texts⟩ := inner_pieces plain
  refine ⟨if p.isAbsolute then [.root]
    else if (Text.splitAt (· == '/') p.text.toList).head? = some ['.'] then [.here] else [],
    _, rfl, inner, moves, ?_, ?_⟩
  · -- the step in front is written as the first piece, which is no move
    cases pieces : Text.splitAt (· == '/') p.text.toList with
    | nil => exact absurd pieces (Text.splitAt_ne_nil _ _)
    | cons piece more =>
      rw [pieces] at plain texts
      have later := (inner_pieces (List.forall_mem_cons.1 plain).2).2.2
      unfold Path.steps
      rw [pieces]
      by_cases absolute : p.isAbsolute = true
      · have slash : piece = [] := by
          cases text : p.text.toList with
          | nil => simp [Path.isAbsolute, text] at absolute
          | cons c rest =>
            obtain rfl : c = '/' := by simpa [Path.isAbsolute, text] using absolute
            have head := congrArg List.head? pieces
            simpa [text, Text.splitAt] using head.symm
        subst slash
        simpa [absolute, stepText, Path.stepOf] using later
      · by_cases here : piece = ['.']
        · subst here
          simpa [absolute, stepText, Path.stepOf] using later
        · simpa [absolute, here] using texts
  · by_cases absolute : p.isAbsolute = true
    · simp [absolute]
    · by_cases here : (Text.splitAt (· == '/') p.text.toList).head? = some ['.'] <;>
        simp [absolute, here]

theorem parent?_eq_some {p q : Path} (h : parent? p = some q) : ∃ above s, p.steps = above ++ [s] ∧
    q.text = if above = [.root] then "/" else "/".intercalate (above.map stepText) := by
  unfold parent? at h
  split at h
  · cases h
  · cases h
  · rename_i s before _ ends
    have steps : p.steps = before.reverse ++ [s] := by simpa using congrArg List.reverse ends
    refine ⟨before.reverse, s, steps, ?_⟩
    by_cases root : before = [.root]
    · simp [root] at h
      simp [root, ← h]
    · have root' : before.reverse ≠ [.root] := fun same => root (by simpa using same)
      simp only [root, if_false, Option.some.injEq] at h
      rw [if_neg root', ← h]

theorem splitAt_steps {p : Path} {above : List Step} {s : Step} (steps : p.steps = above ++ [s])
    (nonempty : above ≠ []) :
    Text.splitAt (· == '/') ("/".intercalate (above.map stepText)).toList =
      above.map fun s => (stepText s).toList := by
  have plain : ∀ piece ∈ above.map fun s => (stepText s).toList, '/' ∉ piece := by
    intro piece hp slash
    obtain ⟨_, _, _, _, _, texts, _⟩ := steps_cases p
    have among := texts.subset (by rw [steps, List.map_append]; exact List.mem_append_left _ hp)
    exact absurd (Text.of_mem_splitAt among '/' slash).2 (by decide)
  rw [String.toList_intercalate, List.map_map, Text.splitAt_eq_splitOn]
  exact List.splitOn_intercalate '/' plain (by simpa using nonempty)

theorem partOf_stepText {p : Path} {s : Step} (h : s ∈ p.steps) :
    partOf (stepText s).toList = stepPart s := by
  obtain ⟨first, rest, steps, inner, _, _, begins⟩ := steps_cases p
  rcases List.mem_append.1 (steps ▸ h) with front | behind
  · rcases begins with ⟨rfl, _⟩ | ⟨rfl | rfl, _⟩
    · obtain rfl := List.mem_singleton.1 front
      rfl
    · cases front
    · obtain rfl := List.mem_singleton.1 front
      rfl
  · exact (inner s behind).text.2.1

def Direct (p : Path) : Prop :=
  movesOf p = [] ∨ ∃ before x, x.moves = true ∧ partsOf p = before ++ [x]

structure IsAbove (q p : Path) : Prop where
  trimmed : endsWithSlash q = false ∨ q.text = "/"
  shorter : q.text.toList.Sublist p.text.toList
  begins : q.text.isEmpty = false → q.isAbsolute = p.isAbsolute
  direct : Direct q
  moves : movesOf p = [] ∨ ∃ x, x.moves = true ∧ movesOf p = movesOf q ++ [x]

theorem steps_snoc {p : Path} {above : List Step} {s : Step} (h : p.steps = above ++ [s]) :
    (above = [] ∧ movesOf p = []) ∨ ∃ first ahead, above = first ++ ahead ∧
      (∀ s ∈ ahead, Inner s) ∧ Inner s ∧ movesOf p = ahead.map stepPart ++ [stepPart s] ∧
      ((first = [.root] ∧ p.isAbsolute = true) ∨
        ((first = [] ∨ first = [.here]) ∧ p.isAbsolute = false)) := by
  obtain ⟨first, rest, whole, inner, moves, _, begins⟩ := steps_cases p
  have both := whole.symm.trans h
  rcases List.eq_nil_or_concat' rest with rfl | ⟨ahead, last, rfl⟩
  · have short : first.length ≤ 1 := by rcases begins with ⟨rfl, _⟩ | ⟨rfl | rfl, _⟩ <;> simp
    have lengths := congrArg List.length both
    simp only [List.append_nil, List.length_append, List.length_singleton] at lengths
    exact .inl ⟨List.eq_nil_of_length_eq_zero (by omega), moves⟩
  · rw [← List.append_assoc] at both
    obtain ⟨rfl, same⟩ := List.append_inj' both rfl
    obtain rfl : last = s := by simpa using same
    simp only [List.mem_append, List.mem_singleton] at inner
    exact .inr ⟨first, ahead, rfl, fun x hx => inner x (.inl hx), inner _ (.inr rfl),
      by simpa using moves, begins⟩

theorem filter_stepPart {first ahead : List Step} (inner : ∀ s ∈ ahead, Inner s)
    (begins : first = [.root] ∨ first = [] ∨ first = [.here]) :
    ((first ++ ahead).map stepPart).filter Part.moves = ahead.map stepPart := by
  have still : (first.map stepPart).filter Part.moves = [] := by
    rcases begins with rfl | rfl | rfl <;> rfl
  rw [List.map_append, List.filter_append, still, List.nil_append, List.filter_eq_self]
  intro part hp
  obtain ⟨s, hs, rfl⟩ := List.mem_map.1 hp
  exact (inner s hs).text.2.2

theorem partsOf_steps {p : Path} {above : List Step} {s : Step} (steps : p.steps = above ++ [s])
    (nonempty : above ≠ []) :
    partsOf ⟨"/".intercalate (above.map stepText)⟩ = above.map stepPart := by
  rw [partsOf, splitAt_steps steps nonempty, List.map_map]
  refine List.map_congr_left fun s hs => ?_
  exact partOf_stepText (by rw [steps]; exact List.mem_append_left _ hs)

theorem steps_sublist {p : Path} {above : List Step} {s : Step} (steps : p.steps = above ++ [s]) :
    ("/".intercalate (above.map stepText)).toList.Sublist p.text.toList := by
  obtain ⟨_, _, _, _, _, texts, _⟩ := steps_cases p
  have front : (above.map fun s => (stepText s).toList).Sublist
      (Text.splitAt (· == '/') p.text.toList) := by
    rw [steps, List.map_append] at texts
    exact (List.sublist_append_left _ _).trans texts
  have whole := Text.intercalate_sublist (c := '/') front
  rw [Text.splitAt_eq_splitOn, List.intercalate_splitOn] at whole
  rw [String.toList_intercalate, List.map_map]
  exact whole

theorem isAbsolute_iff {p : Path} (nonempty : p.text.isEmpty = false) :
    p.isAbsolute = true ↔ (Text.splitAt (· == '/') p.text.toList).head? = some [] := by
  cases text : p.text.toList with
  | nil => simp [String.toList_eq_nil_iff.1 text] at nonempty
  | cons c rest =>
    by_cases slash : c = '/'
    · simp [Path.isAbsolute, text, slash, Text.splitAt]
    · have pieces := Text.splitAt_ne_nil (· == '/') rest
      cases more : Text.splitAt (· == '/') rest <;> simp_all [Path.isAbsolute, Text.splitAt]

theorem isAbove_of_single {p : Path} {first : List Step} {s : Step} (steps : p.steps = first ++ [s])
    (own : movesOf p = [stepPart s]) (moving : (stepPart s).moves = true)
    (begins : (first = [.root] ∧ p.isAbsolute = true) ∨
      ((first = [] ∨ first = [.here]) ∧ p.isAbsolute = false)) :
    IsAbove ⟨if first = [.root] then "/" else "/".intercalate (first.map stepText)⟩ p := by
  rcases begins with ⟨rfl, absolute⟩ | ⟨rfl | rfl, relative⟩
  · have among : '/' ∈ p.text.toList := by
      cases written : p.text.toList with
      | nil => simp [Path.isAbsolute, written] at absolute
      | cons c rest =>
        obtain rfl : c = '/' := by simpa [Path.isAbsolute, written] using absolute
        exact List.mem_cons_self
    exact ⟨.inr rfl, List.singleton_sublist.2 among, fun _ => absolute.symm, .inl rfl,
      .inr ⟨_, moving, own⟩⟩
  · exact ⟨.inl rfl, by simp, by simp, .inl rfl, .inr ⟨_, moving, own⟩⟩
  · refine ⟨.inl rfl, ?_, fun _ => relative.symm, .inl rfl, .inr ⟨_, moving, own⟩⟩
    simpa [stepText] using steps_sublist steps

theorem isAbsolute_steps {p : Path} {first front : List Step} {y s : Step}
    (steps : p.steps = (first ++ (front ++ [y])) ++ [s]) (inner : ∀ x ∈ front ++ [y], Inner x)
    (begins : (first = [.root] ∧ p.isAbsolute = true) ∨
      ((first = [] ∨ first = [.here]) ∧ p.isAbsolute = false))
    (nonempty : Path.text ⟨"/".intercalate ((first ++ (front ++ [y])).map stepText)⟩ ≠ "") :
    Path.isAbsolute ⟨"/".intercalate ((first ++ (front ++ [y])).map stepText)⟩ = p.isAbsolute := by
  have pieces := splitAt_steps steps (by simp)
  rw [Bool.eq_iff_iff, isAbsolute_iff (by simpa using nonempty), pieces]
  rcases begins with ⟨rfl, absolute⟩ | ⟨rfl | rfl, relative⟩
  · simp [absolute, stepText]
  · cases front with
    | nil => simp [relative, (inner y (by simp)).text_ne]
    | cons z more => simp [relative, (inner z (by simp)).text_ne]
  · simp [relative, stepText]

theorem isAbove_of_steps {p : Path} {first front : List Step} {y s : Step}
    (steps : p.steps = (first ++ (front ++ [y])) ++ [s]) (inner : ∀ x ∈ front ++ [y], Inner x)
    (last : Inner s) (moves : movesOf p = (front ++ [y]).map stepPart ++ [stepPart s])
    (begins : (first = [.root] ∧ p.isAbsolute = true) ∨
      ((first = [] ∨ first = [.here]) ∧ p.isAbsolute = false)) :
    IsAbove ⟨"/".intercalate ((first ++ (front ++ [y])).map stepText)⟩ p := by
  have down : Inner y := inner y (by simp)
  have parts := partsOf_steps steps (by simp)
  have split : partsOf ⟨"/".intercalate ((first ++ (front ++ [y])).map stepText)⟩ =
      (first ++ front).map stepPart ++ [stepPart y] := by
    rw [parts]
    simp
  refine ⟨.inl ?_, steps_sublist steps,
    fun nonempty => isAbsolute_steps steps inner begins (by simpa using nonempty),
    .inr ⟨_, _, down.text.2.2, split⟩, .inr ⟨_, last.text.2.2, ?_⟩⟩
  · rw [Bool.eq_false_iff]
    intro slash
    obtain ⟨before, ends⟩ := partsOf_of_endsWithSlash slash
    have same : stepPart y = .stay := by
      simpa using (List.append_inj' (split.symm.trans ends) rfl).2
    have moving := down.text.2.2
    rw [same] at moving
    cases moving
  · rw [moves, movesOf, parts, filter_stepPart inner]
    rcases begins with ⟨rfl, _⟩ | ⟨rfl | rfl, _⟩ <;> simp

theorem isAbove_of_parent? {p q : Path} (h : parent? p = some q) : IsAbove q p := by
  obtain ⟨above, s, steps, text⟩ := parent?_eq_some h
  obtain rfl := Path.eq_of_text text
  rcases steps_snoc steps with ⟨rfl, none⟩ | ⟨first, ahead, rfl, inner, last, moves, begins⟩
  · exact ⟨.inl rfl, by simp, by simp, .inl rfl, .inl none⟩
  · rcases List.eq_nil_or_concat' ahead with rfl | ⟨front, y, rfl⟩
    · rw [List.append_nil] at steps ⊢
      exact isAbove_of_single steps (by simpa using moves) last.text.2.2 begins
    · have root : first ++ (front ++ [y]) ≠ [.root] := by
        intro same
        rw [← List.append_assoc, ← List.nil_append [Step.root]] at same
        obtain rfl : y = .root := by simpa using (List.append_inj' same rfl).2
        rcases inner .root (by simp) with up | ⟨_, name, _⟩
        · cases up
        · cases name
      rw [if_neg root]
      exact isAbove_of_steps steps inner last moves begins

end Files.Tree

end Toolwright
