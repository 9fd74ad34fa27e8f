import Mathlib.Data.List.TakeWhile
import Toolwright.Proofs.Files.Beside

/-!
Paths that are put together from a directory and a name. A name is one step of a path, so a path
that is put together leads to an entry of the directory, and the names of two such paths tell them
apart.
-/

namespace Toolwright

theorem Path.eq_of_text {p : Path} {text : String} (h : p.text = text) : p = ⟨text⟩ := by
  cases p
  exact congrArg Path.mk h

theorem Text.splitAt_slash_of_plain {s : List Char} (plain : '/' ∉ s) :
    splitAt (· == '/') s = [s] := by
  rw [splitAt_eq_splitOnP]
  exact List.splitOnP_eq_singleton fun c hc => by
    have other : c ≠ '/' := fun slash => plain (slash ▸ hc)
    simpa using other

theorem Text.splitAt_slash_snoc (s : List Char) :
    splitAt (· == '/') (s ++ ['/']) = splitAt (· == '/') s ++ [[]] := by
  simp only [splitAt_eq_splitOnP]
  exact List.splitOnP_append_cons s [] (beq_self_eq_true '/')

theorem Path.isAbsolute_of_plain {text : String} (plain : '/' ∉ text.toList) :
    isAbsolute ⟨text⟩ = false := by
  cases written : text.toList with
  | nil => simp [isAbsolute, written]
  | cons c rest =>
    have first : c ≠ '/' := fun slash => plain (by simp [written, slash])
    simp [isAbsolute, written, first]

namespace Files

open Toolwright.Files.Tree (EndsWith partOf partsOf endsWithSlash)

structure IsName (name : String) : Prop where
  ne_empty : name ≠ ""
  ne_here : name ≠ "."
  ne_up : name ≠ ".."
  plain : '/' ∉ name.toList

namespace IsName

variable {name : String}

theorem toList_ne (h : IsName name) :
    name.toList ≠ [] ∧ name.toList ≠ ['.'] ∧ name.toList ≠ ['.', '.'] := by
  refine ⟨fun same => h.ne_empty ?_, fun same => h.ne_here ?_, fun same => h.ne_up ?_⟩ <;>
    exact String.toList_inj.1 same

theorem partOf (h : IsName name) : partOf name.toList = .name name := by
  obtain ⟨empty, here, up⟩ := h.toList_ne
  simp [Tree.partOf, empty, here, up]

theorem stepOf (h : IsName name) : Path.stepOf name.toList = some (.entry name) := by
  obtain ⟨empty, here, up⟩ := h.toList_ne
  simp [Path.stepOf, empty, here, up]

theorem relative (h : IsName name) : Path.isAbsolute ⟨name⟩ = false :=
  Path.isAbsolute_of_plain h.plain

theorem of_length (plain : '/' ∉ name.toList) (long : 2 < name.toList.length) : IsName name := by
  refine ⟨?_, ?_, ?_, plain⟩ <;> rintro rfl <;> exact absurd long (by decide)

end IsName

theorem isName_of_partOf {piece : List Char} {name : String} (h : partOf piece = .name name)
    (plain : ∀ c ∈ piece, (c == '/') = false) : IsName name ∧ name.toList = piece := by
  unfold Tree.partOf at h
  split at h
  · cases h
  · rename_i visible
    split at h
    · cases h
    · rename_i up
      cases h
      rw [not_or] at visible
      refine ⟨⟨fun same => visible.1 ?_, fun same => visible.2 ?_, fun same => up ?_, ?_⟩, by simp⟩
      · simpa using congrArg String.toList same
      · simpa using congrArg String.toList same
      · simpa using congrArg String.toList same
      · intro slash
        exact absurd (plain '/' (by simpa using slash)) (by decide)

end Files

namespace Path

open Files (IsName)
open Files.Tree (EndsWith partOf partsOf endsWithSlash)

variable {p : Path} {name : String}

def seam (p : Path) : String := if p.text.isEmpty || endsWithSlash p then "" else "/"

theorem text_join {more : Path} (relative : more.isAbsolute = false) :
    (p.join more).text = p.text ++ p.seam ++ more.text := by
  unfold join seam endsWithSlash
  rw [if_neg (by simp [relative])]
  split <;> simp

def front (p : Path) : List Files.Tree.Part :=
  ((Text.splitAt (· == '/') (p.text ++ p.seam).toList).dropLast).map partOf

theorem splitAt_seam (p : Path) : ∃ before,
    Text.splitAt (· == '/') (p.text ++ p.seam).toList = before ++ [[]] ∧
      (Text.splitAt (· == '/') p.text.toList = before ∨
        Text.splitAt (· == '/') p.text.toList = before ++ [[]]) := by
  unfold seam
  by_cases empty : p.text = ""
  · exact ⟨[], by simp [empty, Text.splitAt], .inr (by simp [empty, Text.splitAt])⟩
  · by_cases slash : endsWithSlash p = true
    · have last : p.text.toList.getLast? = some '/' := by simpa [endsWithSlash] using slash
      obtain ⟨front, hfront⟩ := List.getLast?_eq_some_iff.1 last
      have pieces := Text.splitAt_slash_snoc front
      exact ⟨_, by simpa [slash, hfront] using pieces, .inr (by rw [hfront, pieces])⟩
    · have text : (p.text ++ "/").toList = p.text.toList ++ ['/'] := by simp
      rw [if_neg (by simp [slash, empty]), text, Text.splitAt_slash_snoc]
      exact ⟨_, rfl, .inl rfl⟩

theorem splitAt_seam_eq (p : Path) :
    Text.splitAt (· == '/') (p.text ++ p.seam).toList =
      (Text.splitAt (· == '/') (p.text ++ p.seam).toList).dropLast ++ [[]] := by
  obtain ⟨before, pieces, _⟩ := p.splitAt_seam
  rw [pieces, List.dropLast_concat]

theorem splitAt_join (plain : '/' ∉ name.toList) :
    Text.splitAt (· == '/') (p.join ⟨name⟩).text.toList =
      (Text.splitAt (· == '/') (p.text ++ p.seam).toList).dropLast ++ [name.toList] := by
  obtain ⟨before, last, first, more, whole, tail, both⟩ :=
    Text.splitAt_append (· == '/') (p.text ++ p.seam).toList name.toList
  obtain ⟨rfl, rfl⟩ : name.toList = first ∧ [] = more := by
    simpa [Text.splitAt_slash_of_plain plain] using tail
  obtain ⟨rfl, same⟩ := List.append_inj' (whole.symm.trans p.splitAt_seam_eq) rfl
  obtain rfl : last = [] := by simpa using same
  rw [text_join (isAbsolute_of_plain plain), String.toList_append, both, List.nil_append]

theorem partsOf_join_of_plain (plain : '/' ∉ name.toList) :
    partsOf (p.join ⟨name⟩) = p.front ++ [partOf name.toList] := by
  rw [partsOf, splitAt_join plain, List.map_append, List.map_singleton, front]

theorem partsOf_join (h : IsName name) : partsOf (p.join ⟨name⟩) = p.front ++ [.name name] := by
  rw [partsOf_join_of_plain h.plain, h.partOf]

theorem isAbsolute_join_of_plain (plain : '/' ∉ name.toList) :
    (p.join ⟨name⟩).isAbsolute = p.isAbsolute := by
  have relative := isAbsolute_of_plain plain
  rw [isAbsolute, text_join relative]
  cases text : p.text.toList with
  | nil =>
    have empty : p.text = "" := String.toList_eq_nil_iff.1 text
    simpa [isAbsolute, seam, empty] using relative
  | cons c rest => simp [isAbsolute, text]

theorem isAbsolute_join (h : IsName name) : (p.join ⟨name⟩).isAbsolute = p.isAbsolute :=
  isAbsolute_join_of_plain h.plain

theorem endsWith_join (h : IsName name) : EndsWith (p.join ⟨name⟩) p.isAbsolute p.front name :=
  ⟨isAbsolute_join h, partsOf_join h⟩

theorem front_join (h : IsName name) : (p.join ⟨name⟩).front = p.front ++ [.name name] := by
  have slash : endsWithSlash (p.join ⟨name⟩) = false :=
    Files.Tree.endsWithSlash_of_parts (partsOf_join h)
  have text : (p.join ⟨name⟩).text ≠ "" := by
    rw [text_join h.relative]
    exact fun empty => h.ne_empty (by simp at empty; exact empty.2)
  have seam : (p.join ⟨name⟩).seam = "/" := by simp [Path.seam, slash, text]
  rw [front, seam, String.toList_append, show "/".toList = ['/'] from rfl,
    Text.splitAt_slash_snoc, List.dropLast_concat, ← partsOf, partsOf_join h]

theorem steps_join (h : IsName name) : (p.join ⟨name⟩).steps = p.steps ++ [.entry name] := by
  obtain ⟨before, pieces, whole⟩ := p.splitAt_seam
  have all : Text.splitAt (· == '/') (p.join ⟨name⟩).text.toList = before ++ [name.toList] := by
    rw [splitAt_join h.plain, pieces, List.dropLast_concat]
  have kept : (Text.splitAt (· == '/') p.text.toList).filterMap stepOf =
      before.filterMap stepOf := by
    rcases whole with whole | whole <;> simp [whole, stepOf]
  have first : (before ++ [name.toList]).head? = some ['.'] ↔
      (Text.splitAt (· == '/') p.text.toList).head? = some ['.'] := by
    cases before with
    | nil =>
      have here := h.toList_ne.2.1
      rcases whole with whole | whole
      · exact absurd whole (Text.splitAt_ne_nil _ _)
      · simp [whole, here]
    | cons piece more => rcases whole with whole | whole <;> simp [whole]
  unfold steps
  simp only [isAbsolute_join h, all, first, List.filterMap_append, kept, List.filterMap_cons,
    h.stepOf, List.filterMap_nil, List.append_assoc]

theorem extend_join {more : Path} (relative : more.isAbsolute = false) (suffix : String)
    (nonempty : more.text ≠ "") : (p.join more).extend suffix = p.join (more.extend suffix) := by
  have relative' : (more.extend suffix).isAbsolute = false := by
    cases text : more.text.toList with
    | nil => exact absurd (String.toList_eq_nil_iff.1 text) nonempty
    | cons c rest => simpa [isAbsolute, extend, text] using relative
  have text : ((p.join more).extend suffix).text = (p.join (more.extend suffix)).text := by
    rw [extend, text_join relative, text_join relative', extend]
    simp only [String.append_assoc]
  cases left : (p.join more).extend suffix
  cases right : p.join (more.extend suffix)
  simpa [left, right] using text

theorem fileName?_join (h : IsName name) : (p.join ⟨name⟩).fileName? = some name := by
  rw [fileName?, steps_join h, List.getLast?_concat]

theorem eq_join_of_parts {before : List Files.Tree.Part} (h : partsOf p = before ++ [.name name]) :
    IsName name ∧ ∃ front : Path, p = front.join ⟨name⟩ := by
  obtain ⟨pieces, ends, whole, rfl, last⟩ := List.map_eq_append_iff.1 h
  obtain ⟨piece, rfl, named⟩ : ∃ piece, ends = [piece] ∧ partOf piece = .name name := by
    simpa [List.map_eq_singleton_iff] using last
  have among : piece ∈ Text.splitAt (· == '/') p.text.toList := by simp [whole]
  have plain : ∀ c ∈ piece, (c == '/') = false := fun c hc => (Text.of_mem_splitAt among c hc).2
  obtain ⟨isName, rfl⟩ := Files.isName_of_partOf named plain
  refine ⟨isName, ?_⟩
  have text : ['/'].intercalate (p.text.toList.splitOn '/') = p.text.toList :=
    List.intercalate_splitOn '/'
  rw [← Text.splitAt_eq_splitOn, whole] at text
  have ends : ∃ front : String, (front = "" ∨ front.toList.getLast? = some '/') ∧
      p.text = front ++ name := by
    by_cases alone : pieces = []
    · exact ⟨"", .inl rfl, String.toList_inj.1 (by simpa [alone, List.intercalate] using text.symm)⟩
    · refine ⟨String.ofList (['/'].intercalate pieces ++ ['/']), .inr (by simp), ?_⟩
      rw [← String.toList_inj, ← text, Text.intercalate_snoc alone]
      simp
  obtain ⟨front, slash, text⟩ := ends
  refine ⟨⟨front⟩, ?_⟩
  have seam : (⟨front⟩ : Path).seam = "" := by
    rcases slash with rfl | slash
    · rfl
    · simp [Path.seam, endsWithSlash, slash]
  have same : p.text = ((⟨front⟩ : Path).join ⟨name⟩).text := by
    rw [text_join isName.relative, seam, String.append_empty, text]
  exact eq_of_text same

theorem stem_eq (name : String) :
    stem name = name ∨ ∃ ending : List Char, '.' ∉ ending ∧
      name.toList = (stem name).toList ++ '.' :: ending := by
  unfold stem
  dsimp only
  split
  · exact .inl rfl
  · rename_i dotted
    right
    have parts := List.takeWhile_append_dropWhile (p := (· != '.')) (l := name.toList.reverse)
    cases behind : name.toList.reverse.dropWhile (· != '.') with
    | nil => exact absurd (by simp [behind]) dotted
    | cons c before =>
      have dot : c = '.' := by
        have head := List.head?_dropWhile_not (· != '.') name.toList.reverse
        simpa [behind] using head
      refine ⟨(name.toList.reverse.takeWhile (· != '.')).reverse, ?_, ?_⟩
      · intro inside
        have apart := List.mem_takeWhile_imp (List.mem_reverse.1 inside)
        simp at apart
      · rw [behind] at parts
        have whole := congrArg List.reverse parts
        simpa [dot] using whole.symm

theorem stem_plain (plain : '/' ∉ name.toList) : '/' ∉ (stem name).toList := by
  rcases stem_eq name with same | ⟨ending, _, whole⟩
  · rwa [same]
  · exact fun slash => plain (whole ▸ List.mem_append_left _ slash)

theorem stem_append_ne {suffix : String} {rest : List Char} (dot : suffix.toList = '.' :: rest)
    (again : '.' ∈ rest) : stem name ++ suffix ≠ name := by
  intro same
  rcases stem_eq name with whole | ⟨ending, none, whole⟩
  · rw [whole] at same
    have empty : suffix = "" := by simpa using same
    simp [empty] at dot
  · rw [← congrArg String.toList same, String.toList_append, dot] at whole
    obtain rfl : rest = ending := by simpa using whole
    exact none again

end Path

end Toolwright
