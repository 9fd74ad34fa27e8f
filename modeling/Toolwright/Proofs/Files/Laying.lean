import Toolwright.Proofs.Files.Aim

/-!
Directories made from the front. To make a directory its path is tried first, then the one above it,
and so on; what comes of that is told by the moves of the path from the front, each of which finds a
directory, is stopped, or makes one. This needs that what is missing has nothing in it, and that no
step leads upwards out of what is missing.
-/

namespace Toolwright.Files.Tree

variable {t : Tree} {p q : Path} {at_ found : Location} {parts more : List Part} {fault : Fault}

def Rooted (t : Tree) : Prop :=
  ∀ at_ name e, t.get? (at_ ++ [name]) = some e → t.get? at_ = some .directory

theorem rooted_of_entries (h : ∀ entry ∈ t.entries, t.get? entry.1.dropLast = some .directory) :
    t.Rooted := by
  intro at_ name e held
  obtain ⟨entry, listed, key⟩ := List.mem_map.1 ((mem_entries_iff (by simp)).2 ⟨e, held⟩)
  have there := h entry listed
  rwa [key, List.dropLast_concat] at there

theorem Rooted.free_below (rooted : t.Rooted) (free : t.get? at_ = none) (more : Location) :
    t.get? (at_ ++ more) = none := by
  induction more generalizing at_ with
  | nil => rwa [List.append_nil]
  | cons name more ih =>
    have next : t.get? (at_ ++ [name]) = none := by
      cases held : t.get? (at_ ++ [name]) with
      | none => rfl
      | some e =>
        have there := rooted _ _ _ held
        rw [free] at there
        cases there
    rw [List.append_cons]
    exact ih next

theorem Rooted.put {above : Location} {name : String} {e : Entry} (rooted : t.Rooted)
    (there : t.get? above = some .directory)
    (kept : ∀ old, t.get? (above ++ [name]) = some old → old.SameKind e) :
    (t.put (above ++ [name]) e).Rooted := by
  intro at_ other e' held
  have outer : t.get? at_ = some .directory := by
    by_cases here : at_ ++ [other] = above ++ [name]
    · obtain ⟨rfl, _⟩ := List.append_inj' here rfl
      exact there
    · rw [get?_put_of_ne t here] at held
      exact rooted _ _ _ held
  by_cases same : at_ = above ++ [name]
  · subst same
    obtain rfl := (kept _ outer).directory
    exact get?_put_self t (by simp) _
  · rw [get?_put_of_ne t same, outer]

def Climbs (t : Tree) (at_ : Location) (parts : List Part) : Prop :=
  ∀ before after, parts = before ++ .up :: after → t.gapFrom at_ before = none

section Climbs

variable {name : String}

theorem climbs_of_down (down : .up ∉ parts) : t.Climbs at_ parts :=
  fun before after split => absurd (by rw [split]; simp) down

theorem Climbs.stay (h : t.Climbs at_ (.stay :: parts)) : t.Climbs at_ parts :=
  fun before after split => h (.stay :: before) after (by rw [split]; rfl)

theorem Climbs.up (h : t.Climbs at_ (.up :: parts)) : t.Climbs at_.dropLast parts :=
  fun before after split => h (.up :: before) after (by rw [split]; rfl)

theorem Climbs.into (h : t.Climbs at_ (.name name :: parts))
    (short : ¬ nameLimit < name.utf8ByteSize)
    (held : t.get? (at_ ++ [name]) = some .directory) : t.Climbs (at_ ++ [name]) parts := by
  intro before after split
  have none := h (.name name :: before) after (by rw [split]; rfl)
  rwa [gapFrom, if_neg short, held] at none

theorem Climbs.down (h : t.Climbs at_ (.name name :: parts))
    (short : ¬ nameLimit < name.utf8ByteSize)
    (free : t.get? (at_ ++ [name]) = none) : .up ∉ parts := by
  intro up
  obtain ⟨before, after, split⟩ := List.append_of_mem up
  have none := h (.name name :: before) after (by rw [split]; rfl)
  rw [gapFrom, if_neg short, free] at none
  cases none

theorem Climbs.append (h : t.Climbs at_ (parts ++ more)) : t.Climbs at_ parts :=
  fun before after split => h before (after ++ more) (by rw [split]; simp)

theorem gapFrom_mono {u : Tree} (grows : Extends Entry.SameKind t u)
    (h : t.gapFrom at_ parts = none) :
    u.gapFrom at_ parts = none := by
  induction parts generalizing at_ with
  | nil => rfl
  | cons part rest ih =>
    cases part with
    | stay => exact ih h
    | up => exact ih h
    | name name =>
      simp only [gapFrom] at h ⊢
      by_cases long : nameLimit < name.utf8ByteSize
      · simp only [if_pos long]
      · simp only [if_neg long] at h ⊢
        cases held : t.get? (at_ ++ [name]) with
        | none =>
          rw [held] at h
          cases h
        | some e =>
          obtain ⟨e', held', kind⟩ := grows.entry _ _ held
          rw [held] at h
          rw [held']
          cases e with
          | directory =>
            obtain rfl := kind.directory
            exact ih h
          | file content =>
            obtain ⟨content', rfl⟩ := kind.file
            rfl

theorem Climbs.mono {u : Tree} (grows : Extends Entry.SameKind t u) (h : t.Climbs at_ parts) :
    u.Climbs at_ parts :=
  fun before after split => gapFrom_mono grows (h before after split)

end Climbs

def lay : Tree → Location → List Part → Except Fault Unit × Tree
  | t, _, [] => (.ok (), t)
  | t, at_, .stay :: rest => lay t at_ rest
  | t, at_, .up :: rest => lay t at_.dropLast rest
  | t, at_, .name name :: rest =>
    if nameLimit < name.utf8ByteSize then (.error .nameTooLong, t)
    else
      match t.get? (at_ ++ [name]) with
      | none => lay (t.put (at_ ++ [name]) .directory) (at_ ++ [name]) rest
      | some .directory => lay t (at_ ++ [name]) rest
      | some (.file _) => (.error (if rest.isEmpty then .alreadyExists else .notDirectory), t)

theorem lay_of_walk (h : t.walk at_ .directory parts ≠ .error .notFound) : t.lay at_ parts =
    match t.walk at_ .directory parts with
    | .ok (.entry _ .directory) => (.ok (), t)
    | .ok (.entry _ (.file _)) => (.error .alreadyExists, t)
    | .ok (.vacant found) => (.ok (), t.put found .directory)
    | .error fault => (.error fault, t) := by
  induction parts generalizing at_ with
  | nil => rfl
  | cons part rest ih =>
    cases part with
    | stay => exact ih h
    | up => exact ih h
    | name name =>
      simp only [walk, lay] at h ⊢
      by_cases long : nameLimit < name.utf8ByteSize
      · simp only [if_pos long]
      · simp only [if_neg long] at h ⊢
        cases held : t.get? (at_ ++ [name]) with
        | none =>
          rw [held] at h
          cases rest with
          | nil => rfl
          | cons next rest => exact absurd rfl h
        | some e =>
          rw [held] at h
          cases e with
          | directory => exact ih h
          | file content => cases rest <;> rfl

theorem gapFrom_of_walk {x : Part} (h : t.walk at_ .directory (parts ++ [x]) = .error .notFound) :
    ∃ found, t.gapFrom at_ parts = some found := by
  induction parts generalizing at_ with
  | nil => exact absurd h walk_single_ne
  | cons part rest ih =>
    cases part with
    | stay => exact ih h
    | up => exact ih h
    | name name =>
      simp only [List.cons_append, walk, gapFrom] at h ⊢
      by_cases long : nameLimit < name.utf8ByteSize
      · simp only [if_pos long] at h
        cases h
      · simp only [if_neg long] at h ⊢
        cases held : t.get? (at_ ++ [name]) with
        | none => exact ⟨_, rfl⟩
        | some e =>
          rw [held] at h
          cases e with
          | directory => exact ih h
          | file content => cases rest <;> cases h

theorem lay_append (h : (t.lay at_ parts).1 = .ok ()) :
    t.lay at_ (parts ++ more) = (t.lay at_ parts).2.lay (aimFrom at_ parts) more := by
  induction parts generalizing t at_ with
  | nil => rfl
  | cons part rest ih =>
    cases part with
    | stay => exact ih h
    | up => exact ih h
    | name name =>
      simp only [List.cons_append, lay, aimFrom] at h ⊢
      by_cases long : nameLimit < name.utf8ByteSize
      · simp only [if_pos long] at h
        cases h
      · simp only [if_neg long] at h ⊢
        cases held : t.get? (at_ ++ [name]) with
        | none =>
          rw [held] at h
          exact ih h
        | some e =>
          rw [held] at h
          cases e with
          | directory => exact ih h
          | file content => cases h

theorem lay_append_error (h : (t.lay at_ parts).1 = .error fault) (other : fault ≠ .alreadyExists) :
    t.lay at_ (parts ++ more) = t.lay at_ parts := by
  induction parts generalizing t at_ with
  | nil => cases h
  | cons part rest ih =>
    cases part with
    | stay => exact ih h
    | up => exact ih h
    | name name =>
      simp only [List.cons_append, lay] at h ⊢
      by_cases long : nameLimit < name.utf8ByteSize
      · simp only [if_pos long]
      · simp only [if_neg long] at h ⊢
        cases held : t.get? (at_ ++ [name]) with
        | none =>
          rw [held] at h
          exact ih h
        | some e =>
          rw [held] at h
          cases e with
          | directory => exact ih h
          | file content =>
            cases rest with
            | nil =>
              cases h
              exact absurd rfl other
            | cons next rest => rfl

theorem lay_fresh (down : .up ∉ parts) (free : ∀ more, more ≠ [] → t.get? (at_ ++ more) = none) :
    (t.lay at_ parts).1 ≠ .error .alreadyExists ∧
      ∀ name, (t.lay at_ parts).2.get? (aimFrom at_ parts ++ [name]) = none := by
  induction parts generalizing t at_ with
  | nil => exact ⟨by simp [lay], fun name => free [name] (by simp)⟩
  | cons part rest ih =>
    rw [List.mem_cons, not_or] at down
    obtain ⟨first, down⟩ := down
    cases part with
    | stay => exact ih down free
    | up => exact absurd rfl first
    | name name =>
      simp only [lay, aimFrom]
      by_cases long : nameLimit < name.utf8ByteSize
      · simp only [if_pos long]
        refine ⟨by simp, fun other => ?_⟩
        obtain ⟨below, whole⟩ := prefix_aimFrom down (at_ ++ [name])
        rw [← whole, List.append_assoc, List.append_assoc]
        exact free _ (by simp)
      · simp only [if_neg long, free [name] (by simp)]
        refine ih down fun more nonempty => ?_
        rw [get?_put_of_ne t (by simpa using nonempty), List.append_assoc]
        exact free _ (by simp)

theorem lay_of_gap (rooted : t.Rooted) (climbs : t.Climbs at_ parts)
    (gap : t.gapFrom at_ parts = some found) : (t.lay at_ parts).1 ≠ .error .alreadyExists ∧
      ∀ name, (t.lay at_ parts).2.get? (aimFrom at_ parts ++ [name]) = none := by
  induction parts generalizing at_ with
  | nil => cases gap
  | cons part rest ih =>
    cases part with
    | stay => exact ih climbs.stay gap
    | up => exact ih climbs.up gap
    | name name =>
      simp only [lay, gapFrom, aimFrom] at gap ⊢
      by_cases long : nameLimit < name.utf8ByteSize
      · simp only [if_pos long] at gap
        cases gap
      · simp only [if_neg long] at gap ⊢
        cases held : t.get? (at_ ++ [name]) with
        | none =>
          refine lay_fresh (climbs.down long held) fun more nonempty => ?_
          rw [get?_put_of_ne t (by simpa using nonempty)]
          exact rooted.free_below held more
        | some e =>
          rw [held] at gap
          cases e with
          | directory => exact ih (climbs.into long held) gap
          | file content => cases gap

theorem lay_changed (climbs : t.Climbs at_ parts)
    (changed : (t.lay at_ parts).2.get? found ≠ t.get? found) : t.get? found = none ∧
      (t.lay at_ parts).2.get? found = some .directory ∧ found <+: aimFrom at_ parts := by
  induction parts generalizing t at_ with
  | nil => exact absurd rfl changed
  | cons part rest ih =>
    cases part with
    | stay => exact ih climbs.stay changed
    | up => exact ih climbs.up changed
    | name name =>
      simp only [lay, aimFrom] at changed ⊢
      by_cases long : nameLimit < name.utf8ByteSize
      · simp only [if_pos long] at changed
        exact absurd rfl changed
      · simp only [if_neg long] at changed ⊢
        cases held : t.get? (at_ ++ [name]) with
        | none =>
          simp only [held] at changed ⊢
          have down := climbs.down long held
          have later := @ih (t.put (at_ ++ [name]) .directory) (at_ ++ [name]) (climbs_of_down down)
          -- either the directory that was just made or something further down
          by_cases here : found = at_ ++ [name]
          · subst here
            have made := get?_put_self t (show at_ ++ [name] ≠ [] by simp) .directory
            refine ⟨held, ?_, prefix_aimFrom down _⟩
            by_contra other
            rw [(later fun same => other (same.trans made)).1] at made
            cases made
          · rw [get?_put_of_ne t here] at later
            exact later changed
        | some e =>
          cases e with
          | directory =>
            simp only [held] at changed ⊢
            exact ih (climbs.into long held) changed
          | file content =>
            simp only [held] at changed
            exact absurd rfl changed

theorem lay_snoc {name : String} (rooted : t.Rooted) (climbs : t.Climbs at_ parts)
    (gap : t.gapFrom at_ parts = some found) : t.lay at_ (parts ++ [.name name]) =
      match t.lay at_ parts with
      | (.error fault, t') => (.error fault, t')
      | (.ok (), t') =>
        if nameLimit < name.utf8ByteSize then (.error .nameTooLong, t')
        else (.ok (), t'.put (aimFrom at_ parts ++ [name]) .directory) := by
  obtain ⟨other, free⟩ := lay_of_gap rooted climbs gap
  rcases made : t.lay at_ parts with ⟨fault | _, t'⟩
  · rw [made] at other
    rw [lay_append_error (by rw [made]) (fun same => other (by rw [same])), made]
  · rw [made] at free
    rw [lay_append (by rw [made]), made]
    dsimp only at free ⊢
    simp only [lay, free name]

theorem isDirectory_eq (p : Path) : t.isDirectory p =
    match t.locate p with
    | .ok (.entry _ .directory) => true
    | _ => false := by
  unfold isDirectory find
  cases t.locate p with
  | error fault => rfl
  | ok place =>
    cases place with
    | vacant at_ => rfl
    | entry at_ e => cases e <;> rfl

theorem above_of_missing (climbs : t.Climbs at_ (movesOf p))
    (missing : t.walk at_ .directory (movesOf p) = .error .notFound) : ∃ q name found,
      parent? p = some q ∧ movesOf p = movesOf q ++ [.name name] ∧ q.text.isEmpty = false ∧
        t.gapFrom at_ (movesOf q) = some found := by
  cases parent : parent? p with
  | none =>
    rw [movesOf_of_parent?_eq_none parent] at missing
    cases missing
  | some q =>
    have moving : movesOf p ≠ [] := by
      intro still
      rw [still] at missing
      cases missing
    obtain ⟨x, moves, split⟩ := (isAbove_of_parent? parent).moves.resolve_left moving
    rw [split] at missing climbs
    obtain ⟨found, gap⟩ := gapFrom_of_walk missing
    have nonempty : q.text.isEmpty = false := by
      rw [Bool.eq_false_iff]
      intro empty
      obtain rfl : q = ⟨""⟩ := Path.eq_of_text (by simpa using empty)
      cases gap
    cases x with
    | stay => cases moves
    | up => exact nomatch gap.symm.trans (climbs (movesOf q) [] rfl)
    | name name => exact ⟨q, name, found, rfl, split, nonempty, gap⟩

theorem createDirectoriesFrom_eq_lay {fuel : Nat} (home : HasHome t) (rooted : t.Rooted)
    (admitted : Admitted p) (direct : Direct p) (trimmed : endsWithSlash p = false ∨ p.text = "/")
    (climbs : t.Climbs (t.beginOf p.isAbsolute) (movesOf p)) (enough : (movesOf p).length < fuel) :
    createDirectoriesFrom fuel t p = t.lay (t.beginOf p.isAbsolute) (movesOf p) := by
  -- the path above has one move less, and the same tree is tried with it
  induction fuel generalizing p with
  | zero => omega
  | succ fuel ih =>
    have way := locate_eq_walk home admitted direct
    unfold createDirectoriesFrom
    rw [if_neg (by simp [admitted.nonempty]), createDirectory_eq trimmed, isDirectory_eq, way]
    by_cases missing : t.walk (t.beginOf p.isAbsolute) .directory (movesOf p) = .error .notFound
    · obtain ⟨q, name, found, parent, split, nonempty, gap⟩ := above_of_missing climbs missing
      have above := isAbove_of_parent? parent
      have begins := above.begins nonempty
      rw [split] at climbs enough
      have laid : createDirectoriesFrom fuel t q = t.lay (t.beginOf p.isAbsolute) (movesOf q) := by
        rw [← begins] at climbs ⊢
        rw [List.length_append, List.length_singleton] at enough
        exact ih (admitted.of_sublist nonempty above.shorter) above.direct above.trimmed
          climbs.append (by omega)
      simp only [missing, parent, laid]
      rw [split, lay_snoc rooted climbs.append gap]
      rcases made : t.lay (t.beginOf p.isAbsolute) (movesOf q) with ⟨fault | _, t'⟩
      · rfl
      · have free := (lay_of_gap rooted climbs.append gap).2 name
        have grows := createDirectoriesFrom_extends (laid.trans made)
        have home' := home.mono grows.sameKind
        have begins' : t'.beginOf p.isAbsolute = t.beginOf p.isAbsolute := by
          rw [beginOf, beginOf, grows.home]
        obtain ⟨l, there⟩ := walk_of_createDirectoriesFrom home' above admitted (laid.trans made)
        rw [begins'] at there
        obtain rfl : l = aimFrom (t.beginOf p.isAbsolute) (movesOf q) := walk_aim there
        have way' := locate_eq_walk home' admitted direct
        rw [begins', split, walk_append there] at way'
        rw [made] at free
        dsimp only at free ⊢
        rw [createDirectory_eq trimmed, isDirectory_eq, way']
        simp only [walk, free]
        by_cases long : nameLimit < name.utf8ByteSize
        · simp only [if_pos long]
          rfl
        · simp only [if_neg long]
    · rw [lay_of_walk missing]
      cases place : t.walk (t.beginOf p.isAbsolute) .directory (movesOf p) with
      | error fault =>
        rw [place] at missing
        cases fault <;> first | rfl | exact absurd rfl missing
      | ok place' =>
        cases place' with
        | vacant at_ => rfl
        | entry at_ e => cases e <;> rfl

theorem createDirectories_eq_lay {before : List Part} {name : String} (home : HasHome t)
    (rooted : t.Rooted) (admitted : Admitted p) (parts : partsOf p = before ++ [.name name])
    (climbs : t.Climbs (t.beginOf p.isAbsolute) (movesOf p)) :
    t.createDirectories p = t.lay (t.beginOf p.isAbsolute) (movesOf p) := by
  obtain ⟨first, rest, steps, _, moves, _, _⟩ := steps_cases p
  refine createDirectoriesFrom_eq_lay home rooted admitted (.inr ⟨before, .name name, rfl, parts⟩)
    (.inl (endsWithSlash_of_parts parts)) climbs ?_
  rw [moves, steps, List.length_map, List.length_append]
  omega

theorem createDirectories_of_not_admitted (nonempty : p.text.isEmpty = false)
    (trimmed : endsWithSlash p = false) (h : ¬ Admitted p) :
    ∃ fault, ∀ t : Tree, t.createDirectories p = (.error fault, t) := by
  have fails : ∃ fault, fault ≠ .notFound ∧ ∀ t : Tree, t.locate p = .error fault := by
    unfold locate
    by_cases nul : p.text.toList.contains '\x00' = true
    · exact ⟨.nulInPath, by decide, fun _ => if_pos nul⟩
    · by_cases long : pathLimit < p.text.utf8ByteSize
      · refine ⟨.nameTooLong, by decide, fun _ => ?_⟩
        rw [if_neg nul, if_neg (by simp [nonempty]), if_pos long]
      · exact absurd ⟨by simpa using nul, nonempty, long⟩ h
  obtain ⟨fault, other, way⟩ := fails
  refine ⟨fault, fun t => ?_⟩
  unfold createDirectories createDirectoriesFrom
  rw [if_neg (by simp [nonempty]), createDirectory_eq (.inl trimmed), isDirectory_eq, way]
  cases fault <;> first | rfl | exact absurd rfl other

end Toolwright.Files.Tree
