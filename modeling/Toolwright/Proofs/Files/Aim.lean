import Toolwright.Proofs.Files.Blocked
import Toolwright.Proofs.Files.Level

/-!
What a path aims at. The parts of a path name a place whether or not anything is there; a path that
leads to an entry leads to the place it aims at. Following a path comes to an end at the first place
on the way where nothing is, its gap. A path is followed alike in a tree that has grown, as long as
nothing stands in its gap.
-/

namespace Toolwright.Files.Tree

variable {t u : Tree} {p : Path} {at_ found above : Location} {e : Entry}
  {parts more before : List Part} {absolute : Bool} {name : String}

def aimFrom : Location → List Part → Location
  | at_, [] => at_
  | at_, .stay :: rest => aimFrom at_ rest
  | at_, .up :: rest => aimFrom at_.dropLast rest
  | at_, .name name :: rest => aimFrom (at_ ++ [name]) rest

def aim (t : Tree) (p : Path) : Location := aimFrom (t.beginOf p.isAbsolute) (partsOf p)

theorem aimFrom_append (at_ : Location) (parts more : List Part) :
    aimFrom at_ (parts ++ more) = aimFrom (aimFrom at_ parts) more := by
  induction parts generalizing at_ with
  | nil => rfl
  | cons part rest ih => cases part <;> exact ih _

theorem aimFrom_moves (at_ : Location) (parts : List Part) :
    aimFrom at_ (parts.filter Part.moves) = aimFrom at_ parts := by
  induction parts generalizing at_ with
  | nil => rfl
  | cons part rest ih => cases part <;> exact ih _

theorem prefix_aimFrom (down : .up ∉ parts) (at_ : Location) : at_ <+: aimFrom at_ parts := by
  induction parts generalizing at_ with
  | nil => exact List.prefix_refl _
  | cons part rest ih =>
    rw [List.mem_cons, not_or] at down
    obtain ⟨first, down⟩ := down
    cases part with
    | stay => exact ih down _
    | up => exact absurd rfl first
    | name name => exact (List.prefix_append _ _).trans (ih down _)

theorem aim_eq_moves (t : Tree) (p : Path) :
    t.aim p = aimFrom (t.beginOf p.isAbsolute) (movesOf p) := (aimFrom_moves _ _).symm

theorem aim_congr (home : u.home = t.home) (p : Path) : u.aim p = t.aim p := by
  unfold aim beginOf
  rw [home]

theorem movesOf_front (p : Path) : p.front.filter Part.moves = movesOf p := by
  obtain ⟨before, split, whole⟩ := p.splitAt_seam
  have front : p.front = before.map partOf := by rw [Path.front, split, List.dropLast_concat]
  rw [front, movesOf, partsOf]
  rcases whole with whole | whole
  · rw [whole]
  · rw [whole, List.map_append, List.filter_append]
    exact (List.append_nil _).symm

theorem movesOf_join (isName : IsName name) (p : Path) :
    movesOf (p.join ⟨name⟩) = movesOf p ++ [.name name] := by
  rw [movesOf, Path.partsOf_join isName, List.filter_append, movesOf_front]
  rfl

theorem aim_join (isName : IsName name) (t : Tree) (p : Path) :
    t.aim (p.join ⟨name⟩) = t.aim p ++ [name] := by
  rw [aim_eq_moves, movesOf_join isName, aimFrom_append, Path.isAbsolute_join isName,
    ← aim_eq_moves]
  rfl

theorem walk_aim {place : Place} (way : t.walk at_ e parts = .ok place) :
    place.shape.1 = aimFrom at_ parts := by
  induction parts generalizing at_ e with
  | nil =>
    cases way
    rfl
  | cons part rest ih =>
    cases e with
    | file content => cases way
    | directory =>
      cases part with
      | stay => exact ih way
      | up => exact ih way
      | name name =>
        simp only [walk] at way
        split at way
        · cases way
        · split at way
          · exact ih way
          · cases way
            rfl
          · cases way

theorem start_eq {start : Location × Entry} (h : (if absolute then some ([], .directory)
      else (t.get? t.home).map (t.home, ·)) = some start) :
    start.1 = t.beginOf absolute ∧ t.get? start.1 = some start.2 := by
  unfold beginOf
  cases absolute with
  | true =>
    cases h
    exact ⟨rfl, get?_nil t⟩
  | false =>
    obtain ⟨_, home, rfl⟩ := Option.map_eq_some_iff.1 h
    exact ⟨rfl, home⟩

theorem locate_aim {place : Place} (way : t.locate p = .ok place) : place.shape.1 = t.aim p := by
  obtain ⟨_, start, hstart, way⟩ := locate_eq_ok.1 way
  rw [aim, ← (start_eq hstart).1]
  exact walk_aim way

theorem Above.aim_eq (h : Above t absolute before above) :
    above = aimFrom (t.beginOf absolute) before := by
  obtain ⟨start, hstart, way⟩ := h
  rw [← (start_eq hstart).1]
  exact walk_aim way

theorem Leads.aim_eq (h : Leads t p at_) : at_ = t.aim p := by
  obtain ⟨_, way⟩ := h
  exact locate_aim way

theorem aim_of_fileTarget (target : t.fileTarget p = .ok at_) : at_ = t.aim p := by
  rcases fileTarget_eq_ok target with way | ⟨_, way⟩ <;> exact locate_aim way

theorem get?_aim {text : String} (read : t.readText p = .ok text) :
    t.get? (t.aim p) = some (.file text.toUTF8) := by
  obtain ⟨at_, way⟩ := readText_eq_ok.1 read
  obtain rfl := Leads.aim_eq ⟨_, way⟩
  exact (locate_file way).2.2

theorem Extends.readText_of_get? {old text : String} (grows : Extends Entry.SameKind t u)
    (read : t.readText p = .ok old) (held : u.get? (t.aim p) = some (.file text.toUTF8)) :
    u.readText p = .ok text := by
  obtain ⟨at_, way⟩ := readText_eq_ok.1 read
  obtain rfl := Leads.aim_eq ⟨_, way⟩
  refine readText_eq_ok.2 ⟨t.aim p, ?_⟩
  obtain ⟨e, way', kind⟩ := grows.locate (fun _ _ same => same) rfl way
  obtain ⟨content, rfl⟩ := kind.file
  cases held.symm.trans (Tree.locate_file way').2.2
  exact way'

/-- The first place on the way along some parts where nothing is, if the way is not blocked. -/
def gapFrom (t : Tree) : Location → List Part → Option Location
  | _, [] => none
  | at_, .stay :: rest => gapFrom t at_ rest
  | at_, .up :: rest => gapFrom t at_.dropLast rest
  | at_, .name name :: rest =>
    if nameLimit < name.utf8ByteSize then none
    else
      match t.get? (at_ ++ [name]) with
      | none => some (at_ ++ [name])
      | some .directory => gapFrom t (at_ ++ [name]) rest
      | some (.file _) => none

def gap? (t : Tree) (p : Path) : Option Location := gapFrom t (t.beginOf p.isAbsolute) (partsOf p)

theorem get?_gapFrom (h : t.gapFrom at_ parts = some found) : t.get? found = none := by
  induction parts generalizing at_ with
  | nil => cases h
  | cons part rest ih =>
    cases part with
    | stay => exact ih h
    | up => exact ih h
    | name name =>
      unfold gapFrom at h
      split at h
      · cases h
      · split at h
        · rename_i free
          cases h
          exact free
        · exact ih h
        · cases h

theorem gapFrom_append : t.gapFrom at_ (parts ++ more) = (t.gapFrom at_ parts).or
    (match t.walk at_ .directory parts with
      | .ok (.entry found .directory) => t.gapFrom found more
      | _ => none) := by
  induction parts generalizing at_ with
  | nil => rfl
  | cons part rest ih =>
    cases part with
    | stay => exact ih
    | up => exact ih
    | name name =>
      simp only [List.cons_append, gapFrom, walk]
      by_cases long : nameLimit < name.utf8ByteSize
      · simp only [if_pos long]
        rfl
      · simp only [if_neg long]
        cases held : t.get? (at_ ++ [name]) with
        | none => rfl
        | some e =>
          cases e with
          | directory => exact ih
          | file content => cases rest <;> rfl

theorem Extends.walk_eq (grows : Extends Entry.SameKind t u)
    (gap : ∀ found, t.gapFrom at_ parts = some found → u.get? found = none) :
    (u.walk at_ .directory parts).map Place.shape =
      (t.walk at_ .directory parts).map Place.shape := by
  induction parts generalizing at_ with
  | nil => rfl
  | cons part rest ih =>
    cases part with
    | stay => exact ih gap
    | up => exact ih gap
    | name name =>
      simp only [gapFrom, Tree.walk] at gap ⊢
      by_cases long : nameLimit < name.utf8ByteSize
      · simp only [if_pos long]
      · simp only [if_neg long] at gap ⊢
        cases held : t.get? (at_ ++ [name]) with
        | none =>
          rw [held] at gap
          rw [gap _ rfl]
          cases rest <;> rfl
        | some e =>
          obtain ⟨e', held', kind⟩ := grows.entry _ _ held
          rw [held] at gap
          rw [held']
          cases e with
          | directory =>
            obtain rfl := kind.directory
            exact ih gap
          | file content =>
            obtain ⟨content', rfl⟩ := kind.file
            cases rest <;> rfl

theorem Extends.locate_eq (grows : Extends Entry.SameKind t u) (home : HasHome t)
    (gap : ∀ found, t.gap? p = some found → u.get? found = none) :
    (u.locate p).map Place.shape = (t.locate p).map Place.shape := by
  by_cases admitted : Admitted p
  · rw [locate_of_admitted admitted, locate_of_admitted admitted, startOf?_eq home,
      startOf?_eq (home.mono grows)]
    have begins : u.beginOf p.isAbsolute = t.beginOf p.isAbsolute := by
      rw [beginOf, beginOf, grows.home]
    dsimp only
    rw [begins]
    exact grows.walk_eq gap
  · rw [locate_of_not_admitted admitted u t]

theorem seen_cases (home : HasHome t) (ends : EndsWith p absolute before name)
    (there : t.gap? p = some at_ ∨ Leads t p at_) :
    t.gapFrom (t.beginOf absolute) before = some at_ ∨
      ∃ above, Above t absolute before above ∧ at_ = above ++ [name] := by
  rcases there with gap | leads
  · rw [gap?, ends.absolute, ends.parts, gapFrom_append, Option.or_eq_some_iff] at gap
    refine gap.imp_right fun ⟨_, behind⟩ => ?_
    split at behind
    · rename_i found way
      refine ⟨found, ⟨(t.beginOf absolute, .directory), ?_, way⟩, ?_⟩
      · unfold beginOf
        cases absolute with
        | true => rfl
        | false => simp [show t.get? t.home = some .directory from home]
      · simp only [gapFrom] at behind
        split at behind
        · cases behind
        · split at behind <;> cases behind
          rfl
    · cases behind
  · exact .inr (leads.above ends)

theorem endsWith_extend (p : Path) {suffix : String} (plain : '/' ∉ suffix.toList)
    (long : 2 < suffix.toList.length) : ∃ before last, partsOf p = before ++ [partOf last] ∧
      EndsWith (p.extend suffix) p.isAbsolute before (String.ofList last ++ suffix) := by
  obtain ⟨pieces, last, first, more, whole, tail, both⟩ :=
    Text.splitAt_append (· == '/') p.text.toList suffix.toList
  have apart : ∀ c ∈ suffix.toList, (c == '/') = false := fun c held =>
    beq_eq_false_iff_ne.2 fun slash => plain (slash ▸ held)
  rw [Text.splitAt_eq_splitOnP _ suffix.toList, List.splitOnP_eq_singleton apart] at tail
  obtain ⟨rfl, rfl⟩ : suffix.toList = first ∧ [] = more := by simpa using tail
  refine ⟨pieces.map partOf, last, by rw [partsOf, whole]; simp, ?_, ?_⟩
  · cases text : p.text.toList with
    | nil =>
      rw [Path.isAbsolute, Path.isAbsolute, Path.extend, String.toList_append, text,
        List.nil_append]
      cases front : suffix.toList with
      | nil => rfl
      | cons c rest =>
        have other : c ≠ '/' := fun slash => plain (by simp [front, slash])
        simp [other]
    | cons c rest => simp [Path.isAbsolute, Path.extend, text]
  · have name : partOf (last ++ suffix.toList) = .name (String.ofList last ++ suffix) := by
      have kept : 2 < (last ++ suffix.toList).length := by rw [List.length_append]; omega
      unfold partOf
      rw [if_neg, if_neg]
      · rw [String.ofList_append, String.ofList_toList]
      · intro same
        rw [same] at kept
        exact absurd kept (by decide)
      · rintro (same | same)
        all_goals
          rw [same] at kept
          exact absurd kept (by decide)
    rw [partsOf, Path.extend, String.toList_append, both, List.map_append, List.map_singleton, name]

theorem Admitted.of_extend {suffix : String} (nonempty : p.text.isEmpty = false)
    (h : Admitted (p.extend suffix)) : Admitted p := by
  refine ⟨?_, nonempty, fun long => h.short ?_⟩
  · have nul := h.nul
    rw [Bool.eq_false_iff] at nul ⊢
    intro inside
    refine nul (List.contains_iff_mem.2 ?_)
    rw [Path.extend]
    simp [List.contains_iff_mem.1 inside]
  · rw [Path.extend, String.utf8ByteSize_append]
    omega

end Toolwright.Files.Tree
