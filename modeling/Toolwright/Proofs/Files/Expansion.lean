import Mathlib.Data.List.Nodup
import Toolwright.Proofs.Files.Blocked
import Toolwright.Proofs.Files.Glob

/-!
An escaped path to a directory as a pattern. Each part of the path leads on to one directory only,
also where it is looked for among names, so that the pattern means one path to the directory. There
is one exception: of a relative path that begins with dots, no dot is kept, and an empty part behind
them leads nowhere.
-/

namespace Toolwright.Files

variable {t : Tree} {name : String} {at_ last : Location}

namespace Tree

theorem mem_namesIn : name ∈ t.namesIn at_ ↔ at_ ++ [name] ∈ t.entries.map Prod.fst := by
  simp only [namesIn, List.mem_filterMap, List.mem_map]
  constructor
  · rintro ⟨e, held, found⟩
    split at found
    · rename_i above
      refine ⟨e, held, ?_⟩
      obtain ⟨front, whole⟩ := List.getLast?_eq_some_iff.1 found
      rw [← above, whole, List.dropLast_concat]
    · cases found
  · rintro ⟨e, held, whole⟩
    exact ⟨e, held, by simp [whole]⟩

theorem nodup_namesIn (wellFormed : t.WellFormed) : (t.namesIn at_).Nodup := by
  have keys : t.namesIn at_ = (t.entries.map Prod.fst).filterMap fun l =>
      if l.dropLast = at_ then l.getLast? else none := by
    rw [List.filterMap_map]
    rfl
  rw [keys]
  refine List.Nodup.filterMap (fun l l' x held held' => ?_) wellFormed.once
  have whole : ∀ {l : Location}, x ∈ (if l.dropLast = at_ then l.getLast? else none) →
      l = at_ ++ [x] := by
    intro l held
    split at held
    · rename_i above
      obtain ⟨front, whole⟩ := List.getLast?_eq_some_iff.1 held
      rw [← above, whole, List.dropLast_concat]
    · cases held
  rw [whole held, whole held']

theorem isName_of_mem_namesIn (wellFormed : t.WellFormed) (h : name ∈ t.namesIn at_) :
    IsName name := by
  obtain ⟨above, last, whole, isName⟩ := wellFormed.named _ (mem_namesIn.1 h)
  obtain ⟨_, same⟩ := List.append_inj' whole rfl
  obtain rfl : name = last := by simpa using same
  exact isName

theorem walk_cons_directory {part : Part} {rest : List Part}
    (way : t.walk at_ .directory (part :: rest) = .ok (.entry last .directory)) :
    ∃ next, t.walk at_ .directory [part] = .ok (.entry next .directory) ∧
      t.walk next .directory rest = .ok (.entry last .directory) := by
  cases part with
  | stay => exact ⟨at_, rfl, way⟩
  | up => exact ⟨at_.dropLast, rfl, way⟩
  | name name =>
    simp only [walk] at way ⊢
    split at way
    · cases way
    · rename_i short
      rw [if_neg short]
      cases held : t.get? (at_ ++ [name]) with
      | none =>
        rw [held] at way
        cases rest <;> cases way
      | some e =>
        rw [held] at way
        cases e with
        | directory => exact ⟨at_ ++ [name], rfl, way⟩
        | file content => cases rest <;> cases way

theorem walk_dropSlashes {s slashes : List Char} {e : Entry}
    (only : ∀ c ∈ slashes, (c == '/') = true)
    (way : t.walk at_ e ((Text.splitAt (· == '/') (s ++ slashes)).map partOf) =
      .ok (.entry last .directory)) :
    t.walk at_ e ((Text.splitAt (· == '/') s).map partOf) = .ok (.entry last .directory) := by
  induction slashes using List.reverseRecOn with
  | nil => rwa [List.append_nil] at way
  | append_singleton slashes c ih =>
    refine ih (fun d hd => only d (List.mem_append_left _ hd)) ?_
    obtain rfl : c = '/' := beq_iff_eq.1 (only c (by simp))
    rw [← List.append_assoc, Text.splitAt_slash_snoc, List.map_append] at way
    obtain ⟨above, ahead⟩ := walk_before way
    rw [walk_append ahead] at way
    cases way
    exact ahead

end Tree

namespace Glob

open Toolwright.Files.Tree (Above Admitted partOf)

variable {reached dir : Path} {part : String} {piece rest : List Char} {pieces : List (List Char)}
  {more : List (List Token)}

theorem namesOf_eq (way : t.locate reached = .ok (.entry at_ .directory)) :
    namesOf t reached = t.namesIn at_ := by
  unfold namesOf
  rw [Tree.find_eq_ok.2 way]

theorem mem_namesOf (way : t.locate reached = .ok (.entry at_ .directory)) :
    name ∈ namesOf t reached ↔ ∃ e, t.get? (at_ ++ [name]) = some e := by
  rw [namesOf_eq way, Tree.mem_namesIn, Tree.mem_entries_iff (by simp)]

def siteOf (reached : Path) : Path := if reached.text = "." then ⟨""⟩ else reached

theorem onward_eq (plain : '/' ∉ part.toList) :
    onward reached part = (siteOf reached).join ⟨part⟩ := by
  unfold onward siteOf
  split
  · simp [Path.join, Path.isAbsolute_of_plain plain]
  · rfl

theorem text_onward (plain : '/' ∉ part.toList) :
    (onward reached part).text = (siteOf reached).text ++ (siteOf reached).seam ++ part := by
  rw [onward_eq plain, Path.text_join (Path.isAbsolute_of_plain plain)]

theorem above_siteOf (way : t.locate reached = .ok (.entry at_ .directory)) :
    Above t (siteOf reached).isAbsolute (siteOf reached).front at_ := by
  unfold siteOf
  split
  · rename_i dot
    obtain rfl : reached = ⟨"."⟩ := Path.eq_of_text dot
    obtain ⟨_, start, hstart, way⟩ := Tree.locate_eq_ok.1 way
    refine ⟨start, by rw [← hstart]; rfl, ?_⟩
    obtain ⟨l, e⟩ := start
    cases e with
    | directory => exact way
    | file content => cases way
  · exact Tree.above_of_locate way

theorem locate_onward (way : t.locate reached = .ok (.entry at_ .directory))
    (plain : '/' ∉ part.toList) (admitted : Admitted (onward reached part)) :
    t.locate (onward reached part) = t.walk at_ .directory [partOf part.toList] := by
  rw [onward_eq plain] at admitted ⊢
  obtain ⟨start, hstart, ahead⟩ := above_siteOf way
  have begins : Tree.startOf? t ((siteOf reached).join ⟨part⟩) = some start := by
    rw [Tree.startOf?, Path.isAbsolute_join_of_plain plain, hstart]
  rw [Tree.locate_of_admitted admitted, begins]
  dsimp only
  rw [Path.partsOf_join_of_plain plain, Tree.walk_append ahead]

def reach (reached : Path) (pieces : List (List Char)) : Path :=
  pieces.foldl (fun p piece => onward p (String.ofList piece)) reached

/-- Piece by piece a directory is reached, and at the end the one at `last`. -/
inductive Trail (t : Tree) (last : Location) : Path → List (List Char) → Prop
  | done {reached : Path} (way : t.locate reached = .ok (.entry last .directory)) :
    Trail t last reached []
  | step {reached : Path} {at_ : Location} {piece : List Char} {pieces : List (List Char)}
      (way : t.locate reached = .ok (.entry at_ .directory)) (plain : '/' ∉ piece)
      (behind : Trail t last (onward reached (String.ofList piece)) pieces) :
      Trail t last reached (piece :: pieces)

theorem Trail.located (h : Trail t last reached pieces) :
    ∃ at_, t.locate reached = .ok (.entry at_ .directory) := by
  cases h with
  | done way => exact ⟨_, way⟩
  | step way => exact ⟨_, way⟩

theorem Trail.locate_reach (h : Trail t last reached pieces) :
    t.locate (reach reached pieces) = .ok (.entry last .directory) := by
  induction h with
  | done way => exact way
  | step _ _ _ ih => exact ih

theorem isName_of_special (special : piece.any isSpecial = true) (plain : '/' ∉ piece) :
    IsName (String.ofList piece) := by
  refine ⟨?_, ?_, ?_, by simpa using plain⟩ <;>
  · intro same
    obtain rfl : piece = _ := by simpa using congrArg String.toList same
    exact absurd special (by decide)

theorem filter_namesOf (wellFormed : t.WellFormed)
    (way : t.locate reached = .ok (.entry at_ .directory)) (plain : '/' ∉ piece)
    (special : piece.any isSpecial = true)
    (there : ∃ next, t.locate (onward reached (String.ofList piece)) =
      .ok (.entry next .directory)) :
    ((namesOf t reached).filter fun name => takes (piece.map escapedToken) name.toList) =
      [String.ofList piece] := by
  have isName := isName_of_special special plain
  obtain ⟨next, there⟩ := there
  have leads := locate_onward way isName.plain (Tree.locate_eq_ok.1 there).1
  rw [isName.partOf, there] at leads
  have among : String.ofList piece ∈ namesOf t reached := by
    refine (mem_namesOf way).2 ?_
    simp only [Tree.walk] at leads
    split at leads
    · cases leads
    · split at leads
      · exact ⟨_, ‹_›⟩
      · cases leads
      · cases leads
  have once : (namesOf t reached).Nodup := by
    rw [namesOf_eq way]
    exact Tree.nodup_namesIn wellFormed
  have meant : ∀ name : String,
      takes (piece.map escapedToken) name.toList = (name == String.ofList piece) := by
    intro name
    rw [Bool.eq_iff_iff, takes_escaped, beq_iff_eq, ← String.toList_inj, String.toList_ofList]
  simp only [meant]
  rw [List.filter_beq, List.count_eq_one_of_mem once among, List.replicate_one]

theorem expand_of_trail (wellFormed : t.WellFormed) (h : Trail t last reached pieces) :
    expand t reached (pieces.map (·.map escapedToken) ++ more) =
      expand t (reach reached pieces) more := by
  induction h with
  | done _ => rfl
  | @step reached at_ piece pieces way plain behind ih =>
    have there := behind.located
    rw [List.map_cons, List.cons_append, expand, literal?_escaped]
    cases special : piece.any isSpecial with
    | true =>
      simp only [if_true, filter_namesOf wellFormed way plain special there, List.flatMap_cons,
        List.flatMap_nil, List.append_nil]
      exact ih
    | false =>
      obtain ⟨next, there⟩ := there
      have directory : t.isDirectory reached = true := Tree.isDirectory_iff.2 ⟨at_, way⟩
      have contains : t.contains (onward reached (String.ofList piece)) = true := by
        unfold Tree.contains
        rw [Tree.find_eq_ok.2 there]
        rfl
      simp only [Bool.false_eq_true, if_false, directory, contains, ite_self, if_true]
      exact ih

def Astray (pieces : List (List Char)) : Prop := (pieces.dropWhile (· == ['.'])).head? = some []

instance (pieces : List (List Char)) : Decidable (Astray pieces) :=
  inferInstanceAs (Decidable (_ = _))

theorem astray_cons : Astray (piece :: pieces) ↔ piece = [] ∨ piece = ['.'] ∧ Astray pieces := by
  unfold Astray
  by_cases dot : piece = ['.']
  · subst dot
    simp
  · simp [dot]

/-- Once only dots were passed an empty part asks for the empty path, which leads nowhere. -/
theorem expand_of_astray (h : Astray pieces) :
    expand t ⟨"."⟩ (pieces.map (·.map escapedToken) ++ more) = [] := by
  induction pieces with
  | nil => cases h
  | cons piece pieces ih =>
    rcases astray_cons.1 h with rfl | ⟨rfl, behind⟩
    · have nowhere : t.contains ⟨""⟩ = false := rfl
      simp [expand, literal?, onward, nowhere]
    · have dot : literal? (['.'].map escapedToken) = some ['.'] := rfl
      have name : String.ofList ['.'] = "." := rfl
      rw [List.map_cons, List.cons_append, expand, dot]
      simp only [name, onward, true_or, if_true]
      split
      · exact ih behind
      · rfl

section Onward

variable (plain : '/' ∉ part.toList)
include plain

theorem text_onward_of_ne (other : reached.text ≠ ".") :
    (onward reached part).text = reached.text ++ reached.seam ++ part := by
  rw [text_onward plain, show siteOf reached = reached from if_neg other]

theorem text_onward_ne_empty (nonempty : reached.text ≠ "")
    (some_ : reached.text = "." → part ≠ "") : (onward reached part).text ≠ "" := by
  intro empty
  by_cases dot : reached.text = "."
  · rw [onward, if_pos dot] at empty
    exact some_ dot empty
  · rw [text_onward_of_ne plain dot] at empty
    have front : (reached.text = "" ∧ reached.seam = "") ∧ part = "" := by simpa using empty
    exact nonempty front.1.1

theorem eq_dot_of_text_onward (nonempty : reached.text ≠ "")
    (dot : (onward reached part).text = ".") :
    reached.text = "." ∧ part = "." := by
  have dots : reached.text = "." := by
    by_contra other
    rw [text_onward_of_ne plain other, ← String.toList_inj, String.append_assoc,
      String.toList_append] at dot
    rcases List.append_eq_singleton_iff.1 dot with ⟨empty, -⟩ | ⟨alone, -⟩
    · exact nonempty (String.toList_eq_nil_iff.1 empty)
    · exact other (String.toList_inj.1 alone)
  rw [onward, if_pos dots] at dot
  exact ⟨dots, dot⟩

end Onward

/-- The text that is reached when the pieces are written behind it with slashes between them. -/
def written (reached : Path) (pieces : List (List Char)) : List Char :=
  ((siteOf reached).text ++ (siteOf reached).seam).toList ++ ['/'].intercalate pieces

theorem siteOf_sublist (p : Path) :
    ((siteOf p).text ++ (siteOf p).seam).toList.Sublist (p.text.toList ++ ['/']) := by
  unfold siteOf Path.seam
  split
  · exact List.nil_sublist _
  · split <;> simp

theorem onward_sublist_written (plain : '/' ∉ piece) :
    (onward reached (String.ofList piece)).text.toList.Sublist
      (written reached (piece :: pieces)) := by
  rw [text_onward (by simpa using plain), String.toList_append, String.toList_ofList, written]
  refine List.Sublist.append_left ?_ _
  cases pieces <;> simp [List.intercalate]

theorem written_onward_sublist (plain : '/' ∉ piece) (more : pieces ≠ []) :
    (written (onward reached (String.ofList piece)) pieces).Sublist
      (written reached (piece :: pieces)) := by
  have cut : written reached (piece :: pieces) =
      ((onward reached (String.ofList piece)).text.toList ++ ['/']) ++
      ['/'].intercalate pieces := by
    rw [text_onward (by simpa using plain), String.toList_append, String.toList_ofList, written]
    cases pieces with
    | nil => exact absurd rfl more
    | cons next pieces => simp [List.intercalate]
  rw [cut]
  exact List.Sublist.append_right (siteOf_sublist _) _

/-- A path is followed piece by piece where the system follows it as a whole: each path on the way
is written with no more than the whole one. -/
theorem trail_of_walk (whole : Admitted dir) (plain : ∀ piece ∈ pieces, '/' ∉ piece)
    (here : t.locate reached = .ok (.entry at_ .directory))
    (way : t.walk at_ .directory (pieces.map partOf) = .ok (.entry last .directory))
    (fits : pieces ≠ [] → (written reached pieces).Sublist dir.text.toList)
    (straight : reached.text = "." → ¬ Astray pieces) : Trail t last reached pieces := by
  induction pieces generalizing reached at_ with
  | nil =>
    cases way
    exact .done here
  | cons piece pieces ih =>
    rw [List.forall_mem_cons] at plain
    have slashless : '/' ∉ (String.ofList piece).toList := by simpa using plain.1
    have some_ : reached.text ≠ "" := by simpa using (Tree.locate_eq_ok.1 here).1.nonempty
    have nonempty : (onward reached (String.ofList piece)).text ≠ "" :=
      text_onward_ne_empty slashless some_ fun dot empty =>
        straight dot (astray_cons.2 (.inl (by simpa using congrArg String.toList empty)))
    have shorter := (onward_sublist_written plain.1).trans (fits (by simp))
    have leads := locate_onward here slashless (whole.of_sublist (by simpa using nonempty) shorter)
    rw [String.toList_ofList] at leads
    obtain ⟨next, first, behind⟩ := Tree.walk_cons_directory way
    refine .step here plain.1 (ih plain.2 (leads.trans first) behind (fun more => ?_) fun dot => ?_)
    · exact (written_onward_sublist plain.1 more).trans (fits (by simp))
    · obtain ⟨dots, same⟩ := eq_dot_of_text_onward slashless some_ dot
      have piece_ : piece = ['.'] := by simpa using congrArg String.toList same
      exact fun astray => straight dots (astray_cons.2 (.inr ⟨piece_, astray⟩))

def rootOf (dir : Path) : Path := if dir.isAbsolute then ⟨"/"⟩ else ⟨"."⟩

/-- The pieces of a path behind where it begins, without slashes at its end. -/
def piecesOf (dir : Path) : List (List Char) :=
  let pieces := Text.splitAt (· == '/') (Text.dropEnd (· == '/') dir.text.toList)
  if dir.isAbsolute then pieces.tail else pieces

/-- A relative path with an empty part behind nothing but dots, such as a dot with two slashes and a
name behind them. -/
def Strays (dir : Path) : Prop := dir.isAbsolute = false ∧ Astray (piecesOf dir)

instance (dir : Path) : Decidable (Strays dir) := inferInstanceAs (Decidable (_ ∧ _))

def directPath (dir : Path) : Path := reach (rootOf dir) (piecesOf dir)

theorem splitAt_of_absolute (absolute : dir.isAbsolute = true) :
    Text.splitAt (· == '/') (Text.dropEnd (· == '/') dir.text.toList) = [] :: piecesOf dir := by
  unfold piecesOf
  rw [if_pos absolute]
  obtain ⟨slashes, -, whole⟩ := Text.exists_dropEnd (· == '/') dir.text.toList
  cases front : Text.dropEnd (· == '/') dir.text.toList with
  | nil => rfl
  | cons c rest =>
    have first : dir.text.toList.head? = some '/' := by simpa [Path.isAbsolute] using absolute
    rw [whole, front] at first
    obtain rfl : c = '/' := Option.some.inj first
    simp [Text.splitAt]

theorem plain_of_mem_piecesOf : ∀ piece ∈ piecesOf dir, '/' ∉ piece := by
  intro piece held slash
  have among : piece ∈ Text.splitAt (· == '/') (Text.dropEnd (· == '/') dir.text.toList) := by
    unfold piecesOf at held
    split at held
    · exact List.mem_of_mem_tail held
    · exact held
  exact absurd (Text.of_mem_splitAt among '/' slash).2 (by decide)

theorem written_sublist (some_ : piecesOf dir ≠ []) :
    (written (rootOf dir) (piecesOf dir)).Sublist dir.text.toList := by
  obtain ⟨slashes, -, whole⟩ := Text.exists_dropEnd (· == '/') dir.text.toList
  have text :
      ['/'].intercalate (Text.splitAt (· == '/') (Text.dropEnd (· == '/') dir.text.toList)) =
        Text.dropEnd (· == '/') dir.text.toList := by
    rw [Text.splitAt_eq_splitOn, List.intercalate_splitOn]
  have same : written (rootOf dir) (piecesOf dir) = Text.dropEnd (· == '/') dir.text.toList := by
    rw [← text]
    cases absolute : dir.isAbsolute with
    | true =>
      rw [splitAt_of_absolute absolute]
      cases pieces : piecesOf dir with
      | nil => exact absurd pieces some_
      | cons first rest =>
        have seam : (⟨"/"⟩ : Path).seam = "" := rfl
        simp [written, rootOf, absolute, siteOf, seam, List.intercalate]
    | false => simp [written, rootOf, absolute, siteOf, Path.seam, piecesOf]
  rw [same]
  conv_rhs => rw [whole]
  exact List.sublist_append_left _ _

theorem locate_rootOf (home : t.HasHome) (dir : Path) :
    t.locate (rootOf dir) = .ok (.entry (t.beginOf dir.isAbsolute) .directory) := by
  unfold rootOf
  cases dir.isAbsolute with
  | true => rfl
  | false =>
    exact Tree.locate_eq_ok.2 ⟨⟨by decide, by decide, by decide⟩, _, Tree.startOf?_eq home _, rfl⟩

theorem walk_piecesOf {l : Location} (way : t.walk l .directory (Tree.partsOf dir) =
    .ok (.entry last .directory)) :
    t.walk l .directory ((piecesOf dir).map partOf) = .ok (.entry last .directory) := by
  obtain ⟨slashes, only, whole⟩ := Text.exists_dropEnd (· == '/') dir.text.toList
  rw [Tree.partsOf, whole] at way
  have ahead := Tree.walk_dropSlashes only way
  cases absolute : dir.isAbsolute with
  | true => rwa [splitAt_of_absolute absolute] at ahead
  | false => rwa [piecesOf, absolute]

theorem trail_of_locate (wellFormed : t.WellFormed)
    (way : t.locate dir = .ok (.entry last .directory))
    (straight : ¬ Strays dir) : Trail t last (rootOf dir) (piecesOf dir) := by
  obtain ⟨admitted, start, hstart, way⟩ := Tree.locate_eq_ok.1 way
  rw [Tree.startOf?_eq wellFormed.home] at hstart
  cases hstart
  refine trail_of_walk admitted plain_of_mem_piecesOf (locate_rootOf wellFormed.home dir)
    (walk_piecesOf way) written_sublist fun dot astray => straight ⟨?_, astray⟩
  unfold rootOf at dot
  cases absolute : dir.isAbsolute with
  | true =>
    rw [absolute] at dot
    exact absurd dot (by decide)
  | false => rfl

end Glob

end Toolwright.Files
