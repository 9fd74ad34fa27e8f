import Toolwright.Proofs.Files.Places

/-!
Directories that cannot be made. A path is blocked when it leads to a file, or when it is refused
for another reason than that something is missing. Nothing that is written or made lifts that, so
making a blocked directory fails again and leaves everything as it is; and whenever a directory
could not be made it is blocked.
-/

namespace Toolwright.Files.Tree

variable {t t' : Tree} {p q : Path} {at_ : Location}

theorem walk_error_mono (grows : Extends Entry.SameKind t t') {parts : List Part} {e e' : Entry}
    {fault : Fault} (kind : e.SameKind e') (other : fault ≠ .notFound)
    (h : t.walk at_ e parts = .error fault) : t'.walk at_ e' parts = .error fault := by
  induction parts generalizing at_ e e' with
  | nil => cases h
  | cons part rest ih =>
    cases e with
    | file content =>
      obtain ⟨content', rfl⟩ := kind.file
      exact h
    | directory =>
      obtain rfl := kind.directory
      cases part with
      | stay => exact ih rfl h
      | up => exact ih rfl h
      | name name =>
        simp only [walk] at h ⊢
        split at h
        · rename_i long
          rw [if_pos long, ← h]
        · rename_i short
          rw [if_neg short]
          cases held : t.get? (at_ ++ [name]) with
          | none =>
            rw [held] at h
            cases rest <;> cases h
            exact absurd rfl other
          | some e =>
            obtain ⟨e', held', kind⟩ := grows.entry _ _ held
            rw [held] at h
            rw [held']
            exact ih kind h

theorem locate_error_mono (grows : Extends Entry.SameKind t t') {fault : Fault}
    (other : fault ≠ .notFound) (h : t.locate p = .error fault) : t'.locate p = .error fault := by
  by_cases admitted : Admitted p
  · rw [locate_of_admitted admitted] at h ⊢
    unfold startOf? at h ⊢
    by_cases absolute : p.isAbsolute = true
    · simp only [absolute, if_true] at h ⊢
      exact walk_error_mono grows rfl other h
    · simp only [absolute, Bool.false_eq_true, if_false, grows.home] at h ⊢
      cases home : t.get? t.home with
      | none =>
        rw [home] at h
        cases h
        exact absurd rfl other
      | some e =>
        obtain ⟨e', home', kind⟩ := grows.entry _ _ home
        rw [home] at h
        rw [home']
        exact walk_error_mono grows kind other h
  · rw [locate_of_not_admitted admitted t' t, h]

/-- The path leads to a file, or is refused although nothing is missing. -/
def Blocked (t : Tree) (p : Path) : Prop :=
  (∃ fault, fault ≠ .notFound ∧ t.locate p = .error fault) ∨
    ∃ at_ content, t.locate p = .ok (.entry at_ (.file content))

theorem Blocked.mono (grows : Extends Entry.SameKind t t') (h : Blocked t p) : Blocked t' p := by
  rcases h with ⟨fault, other, way⟩ | ⟨at_, content, way⟩
  · exact .inl ⟨fault, other, locate_error_mono grows other way⟩
  · obtain ⟨e, way', kind⟩ := grows.locate (fun _ _ same => same) rfl way
    obtain ⟨content', rfl⟩ := kind.file
    exact .inr ⟨at_, content', way'⟩

theorem walk_stays {parts : List Part} (still : parts.filter Part.moves = []) :
    t.walk at_ .directory parts = .ok (.entry at_ .directory) := by
  induction parts with
  | nil => rfl
  | cons part rest ih => cases part <;> simp_all [Part.moves, walk]

theorem walk_moves {before : List Part} {x : Part} {e : Entry} :
    t.walk at_ e (before ++ [x]) = t.walk at_ e (before.filter Part.moves ++ [x]) := by
  induction before generalizing at_ e with
  | nil => rfl
  | cons part rest ih =>
    cases e with
    | file content => cases kept : (part :: rest).filter Part.moves <;> rfl
    | directory =>
      cases part with
      | stay => exact ih
      | up => exact ih
      | name name =>
        simp only [List.cons_append,
          List.filter_cons_of_pos (show (Part.name name).moves = true from rfl), walk]
        cases t.get? (at_ ++ [name]) with
        | none => cases rest <;> cases List.filter Part.moves _ <;> rfl
        | some e => simp only [ih]

def beginOf (t : Tree) (absolute : Bool) : Location := if absolute then [] else t.home

theorem startOf?_eq (home : HasHome t) (p : Path) :
    startOf? t p = some (t.beginOf p.isAbsolute, .directory) := by
  unfold startOf? beginOf
  cases p.isAbsolute with
  | true => rfl
  | false => simp [show t.get? t.home = some .directory from home]

theorem locate_eq_walk (home : HasHome t) (admitted : Admitted p) (direct : Direct p) :
    t.locate p = t.walk (t.beginOf p.isAbsolute) .directory (movesOf p) := by
  rw [locate_of_admitted admitted, startOf?_eq home]
  dsimp only
  rcases direct with none | ⟨before, x, moving, parts⟩
  · rw [walk_stays none, none]
    rfl
  · rw [movesOf, parts, walk_moves, List.filter_append, List.filter_cons_of_pos moving]
    rfl

theorem locate_of_isAbove (home : HasHome t) (above : IsAbove q p) (admitted : Admitted p)
    (nonempty : q.text.isEmpty = false) :
    t.locate q = t.walk (t.beginOf p.isAbsolute) .directory (movesOf q) := by
  rw [locate_eq_walk home (admitted.of_sublist nonempty above.shorter) above.direct,
    above.begins nonempty]

theorem walk_append_error {parts more : List Part} {e : Entry} {fault : Fault}
    (other : fault ≠ .notFound) (h : t.walk at_ e parts = .error fault) :
    t.walk at_ e (parts ++ more) = .error fault := by
  induction parts generalizing at_ e with
  | nil => cases h
  | cons part rest ih =>
    cases e with
    | file content => exact h
    | directory =>
      cases part with
      | stay => exact ih h
      | up => exact ih h
      | name name =>
        simp only [walk, List.cons_append] at h ⊢
        split at h
        · rename_i long
          rw [if_pos long, ← h]
        · rename_i short
          rw [if_neg short]
          cases held : t.get? (at_ ++ [name]) with
          | none =>
            rw [held] at h
            cases rest <;> cases h
            exact absurd rfl other
          | some e =>
            rw [held] at h
            exact ih h

theorem Blocked.below (home : HasHome t) (above : IsAbove q p) (admitted : Admitted p)
    (direct : Direct p) (moving : movesOf p ≠ []) (h : Blocked t q)
    (nonempty : q.text.isEmpty = false) : Blocked t p := by
  obtain ⟨x, _, moves⟩ := above.moves.resolve_left moving
  rw [Blocked, locate_of_isAbove home above admitted nonempty] at h
  rw [Blocked, locate_eq_walk home admitted direct, moves]
  rcases h with ⟨fault, other, way⟩ | ⟨at_, content, way⟩
  · exact .inl ⟨fault, other, walk_append_error other way⟩
  · exact .inl ⟨.notDirectory, by decide, by rw [walk_append way]; rfl⟩

theorem movesOf_of_parent?_eq_none (h : parent? p = none) : movesOf p = [] := by
  obtain ⟨first, rest, steps, inner, moves, _, begins⟩ := steps_cases p
  rcases List.eq_nil_or_concat' rest with rfl | ⟨ahead, last, rfl⟩
  · exact moves
  · have down := inner last (by simp)
    have ends : p.steps.reverse = last :: (first ++ ahead).reverse := by simp [steps]
    unfold parent? at h
    rw [ends] at h
    rcases down with rfl | ⟨name, rfl, _⟩ <;> simp at h <;> split at h <;> cases h

theorem walk_single_ne {x : Part} : t.walk at_ .directory [x] ≠ .error .notFound := by
  cases x with
  | stay => simp [walk]
  | up => simp [walk]
  | name name =>
    simp only [walk]
    split
    · simp
    · split <;> simp_all

theorem createDirectory_eq (trimmed : endsWithSlash p = false ∨ p.text = "/") (t : Tree) :
    t.createDirectory p =
      match t.locate p with
      | .ok (.entry _ _) => .error .alreadyExists
      | .ok (.vacant at_) => .ok (t.put at_ .directory)
      | .error fault => .error fault := by
  rcases trimmed with slash | root
  · unfold createDirectory
    rw [dropEnd_of_endsWithSlash slash]
    cases way : t.locate p with
    | error fault => simp only [String.ofList_toList, ite_self, way]
    | ok place => cases place <;> simp only [String.ofList_toList, ite_self, way]
  · obtain rfl : p = ⟨"/"⟩ := Path.eq_of_text root
    rfl

theorem Blocked.createDirectories (trimmed : endsWithSlash p = false ∨ p.text = "/")
    (nonempty : p.text.isEmpty = false) (h : Blocked t p) :
    ∃ fault, t.createDirectories p = (.error fault, t) := by
  have fails : ∃ fault, fault ≠ .notFound ∧ t.createDirectory p = .error fault := by
    rw [createDirectory_eq trimmed]
    rcases h with ⟨fault, other, way⟩ | ⟨at_, content, way⟩
    · exact ⟨fault, other, by rw [way]⟩
    · exact ⟨.alreadyExists, by decide, by rw [way]⟩
  have none : t.isDirectory p = false := by
    rw [Bool.eq_false_iff]
    intro there
    obtain ⟨found, way'⟩ := isDirectory_iff.1 there
    rcases h with ⟨_, _, way⟩ | ⟨_, _, way⟩ <;> cases way.symm.trans way'
  obtain ⟨fault, other, fails⟩ := fails
  refine ⟨fault, ?_⟩
  unfold Tree.createDirectories createDirectoriesFrom
  rw [if_neg (by simp [nonempty]), fails]
  cases fault <;> simp_all

/-- A directory that is not there and cannot be made is blocked, or something is missing above. -/
theorem blocked_of_createDirectory {fault : Fault}
    (trimmed : endsWithSlash p = false ∨ p.text = "/")
    (h : t.createDirectory p = .error fault) (absent : ¬ t.isDirectory p = true) :
    (fault = .notFound ∧ t.locate p = .error .notFound) ∨ Blocked t p := by
  rw [createDirectory_eq trimmed] at h
  cases way : t.locate p with
  | ok place =>
    rw [way] at h
    cases place with
    | vacant at_ => cases h
    | entry at_ e =>
      cases e with
      | directory => exact absurd (isDirectory_iff.2 ⟨at_, way⟩) absent
      | file content => exact .inr (.inr ⟨at_, content, way⟩)
  | error other =>
    rw [way] at h
    cases h
    by_cases missing : fault = .notFound
    · subst missing
      exact .inl ⟨rfl, rfl⟩
    · exact .inr (.inl ⟨fault, missing, way⟩)

theorem locate_of_createDirectory (trimmed : endsWithSlash p = false ∨ p.text = "/")
    (h : t.createDirectory p = .error .notFound) : t.locate p = .error .notFound := by
  rw [createDirectory_eq trimmed] at h
  split at h
  · cases h
  · cases h
  · rename_i way
    cases h
    exact way

theorem walk_of_createDirectoriesFrom {fuel : Nat} {t₀ : Tree} (home : HasHome t)
    (above : IsAbove q p)
    (admitted : Admitted p) (made : createDirectoriesFrom fuel t₀ q = (.ok (), t)) :
    ∃ l, t.walk (t.beginOf p.isAbsolute) .directory (movesOf q) = .ok (.entry l .directory) := by
  by_cases written : q.text.isEmpty = true
  · obtain rfl : q = ⟨""⟩ := Path.eq_of_text (by simpa using written)
    exact ⟨_, rfl⟩
  · have nonempty : q.text.isEmpty = false := by simpa using written
    rcases above.trimmed with slash | root
    · obtain ⟨l, way⟩ := isDirectory_iff.1 (createDirectoriesFrom_isDirectory nonempty slash made)
      exact ⟨l, by rw [← locate_of_isAbove home above admitted nonempty, way]⟩
    · obtain rfl : q = ⟨"/"⟩ := Path.eq_of_text root
      exact ⟨_, rfl⟩

theorem admitted_of_notFound (nonempty : p.text.isEmpty = false)
    (h : t.locate p = .error .notFound) : Admitted p := by
  unfold locate at h
  split at h
  · cases h
  · rename_i nul
    rw [if_neg (by simp [nonempty])] at h
    split at h
    · cases h
    · rename_i short
      exact ⟨by simpa using nul, nonempty, short⟩

theorem nonempty_of_createDirectoriesFrom {fuel : Nat} {fault : Fault}
    (h : createDirectoriesFrom (fuel + 1) t p = (.error fault, t')) : p.text.isEmpty = false := by
  unfold createDirectoriesFrom at h
  split at h
  · cases h
  · rename_i written
    simpa using written

theorem blocked_of_createDirectory_below {fuel : Nat} {t₀ : Tree} {fault : Fault} (home : HasHome t)
    (direct : Direct p) (trimmed : endsWithSlash p = false ∨ p.text = "/") (above : IsAbove q p)
    (admitted : Admitted p) (moving : movesOf p ≠ [])
    (made : createDirectoriesFrom fuel t₀ q = (.ok (), t))
    (fails : t.createDirectory p = .error fault) (absent : ¬ t.isDirectory p = true) :
    Blocked t p := by
  refine (blocked_of_createDirectory trimmed fails absent).resolve_left ?_
  rintro ⟨_, way⟩
  -- the directory above has been made, so there is nothing that could be missing
  obtain ⟨x, _, moves⟩ := above.moves.resolve_left moving
  obtain ⟨l, there⟩ := walk_of_createDirectoriesFrom home above admitted made
  rw [locate_eq_walk home admitted direct, moves, walk_append there] at way
  exact walk_single_ne way

theorem blocked_of_createDirectoriesFrom {fuel : Nat} {fault : Fault} (home : HasHome t)
    (direct : Direct p) (trimmed : endsWithSlash p = false ∨ p.text = "/")
    (enough : (movesOf p).length < fuel)
    (h : createDirectoriesFrom fuel t p = (.error fault, t')) : Blocked t' p := by
  -- each path above has one move less, so the fuel does not run out
  induction fuel generalizing t p t' fault with
  | zero => omega
  | succ fuel ih =>
    unfold createDirectoriesFrom at h
    split at h
    · cases h
    · rename_i written
      have nonempty : p.text.isEmpty = false := by simpa using written
      split at h
      · cases h
      · rename_i missing
        have way := locate_of_createDirectory trimmed missing
        have admitted := admitted_of_notFound nonempty way
        have moving : movesOf p ≠ [] := by
          intro still
          rw [locate_eq_walk home admitted direct, still] at way
          cases way
        split at h
        · rename_i none
          exact absurd (movesOf_of_parent?_eq_none none) moving
        · rename_i q parent
          have above := isAbove_of_parent? parent
          obtain ⟨x, _, moves⟩ := above.moves.resolve_left moving
          have less : (movesOf q).length < fuel := by
            rw [moves, List.length_append, List.length_singleton] at enough
            omega
          split at h
          · rename_i made
            cases h
            have home' := home.mono (createDirectoriesFrom_extends made).sameKind
            have nonempty' : q.text.isEmpty = false := by
              cases fuel with
              | zero => omega
              | succ fuel => exact nonempty_of_createDirectoriesFrom made
            exact (ih home above.direct above.trimmed less made).below home' above admitted direct
              moving nonempty'
          · rename_i t₁ made
            have home' := home.mono (createDirectoriesFrom_extends made).sameKind
            split at h
            · cases h
            · rename_i fails
              split at h
              · cases h
              · rename_i absent
                cases h
                exact blocked_of_createDirectory_below home' direct trimmed above admitted
                  moving made
                  fails absent
      · rename_i other fails
        split at h
        · cases h
        · rename_i absent
          cases h
          exact (blocked_of_createDirectory trimmed fails absent).resolve_left fun missing =>
            other missing.1

theorem blocked_of_createDirectories {fault : Fault} {before : List Part} {name : String}
    (home : HasHome t) (parts : partsOf p = before ++ [.name name])
    (h : t.createDirectories p = (.error fault, t')) : Blocked t' p := by
  obtain ⟨first, rest, steps, _, moves, _, _⟩ := steps_cases p
  have enough : (movesOf p).length < p.steps.length + 2 := by
    rw [moves, steps, List.length_map, List.length_append]
    omega
  exact blocked_of_createDirectoriesFrom home (.inr ⟨before, .name name, rfl, parts⟩)
    (.inl (endsWithSlash_of_parts parts)) enough h

end Toolwright.Files.Tree
