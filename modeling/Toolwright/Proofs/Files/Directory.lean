import Toolwright.Proofs.Files.Write
import Toolwright.Proofs.Text.Blank

/-!
Making directories. Nothing that is in a tree is changed by making directories, whether or not it
succeeds. A directory that was made is there, and where it is there nothing has to be made.
-/

namespace Toolwright.Files.Tree

theorem dropEnd_of_endsWithSlash {p : Path} (slash : endsWithSlash p = false) :
    Text.dropEnd (· == '/') p.text.toList = p.text.toList := by
  have last : p.text.toList.getLast? ≠ some '/' := by simpa [endsWithSlash] using slash
  rw [Text.dropEnd_eq_rdropWhile, List.rdropWhile_eq_self_iff]
  intro some_ ends
  rw [List.getLast?_eq_some_getLast some_, beq_iff_eq.1 ends] at last
  exact last rfl

theorem createDirectory_eq_ok {t made : Tree} {p : Path} (h : t.createDirectory p = .ok made) :
    ∃ q at_, t.locate q = .ok (.vacant at_) ∧ made = t.put at_ .directory ∧
      (endsWithSlash p = false → q = p) := by
  unfold createDirectory at h
  dsimp only at h
  split at h
  · cases h
  · cases h
    rename_i at_ way
    refine ⟨_, at_, way, rfl, fun slash => ?_⟩
    rw [dropEnd_of_endsWithSlash slash]
    split <;> simp [String.ofList_toList]
  · cases h

theorem createDirectory_extends {t made : Tree} {p : Path} (h : t.createDirectory p = .ok made) :
    Extends Eq t made := by
  obtain ⟨q, at_, way, rfl, _⟩ := createDirectory_eq_ok h
  obtain ⟨_, _, _, way⟩ := locate_eq_ok.1 way
  obtain ⟨hne, free, _⟩ := walk_vacant way
  refine Extends.put (R := Eq) (fun _ => rfl) hne fun e held => ?_
  rw [free] at held
  cases held

theorem createDirectory_isDirectory {t made : Tree} {p : Path} (slash : endsWithSlash p = false)
    (h : t.createDirectory p = .ok made) : made.isDirectory p = true := by
  obtain ⟨q, at_, way, rfl, same⟩ := createDirectory_eq_ok h
  obtain rfl := same slash
  obtain ⟨admitted, start, hstart, way⟩ := locate_eq_ok.1 way
  obtain ⟨hne, free, found⟩ := walk_vacant way
  refine isDirectory_iff.2 ⟨at_, locate_eq_ok.2 ⟨admitted, start, ?_, found .directory⟩⟩
  unfold startOf? at hstart ⊢
  split
  · rename_i absolute
    rwa [if_pos absolute] at hstart
  · rename_i relative
    rw [if_neg relative] at hstart
    have home : t.home ≠ at_ := by
      intro same
      rw [same, free] at hstart
      cases hstart
    rw [home_put, get?_put_of_ne t home]
    exact hstart

theorem createDirectoriesFrom_extends {fuel : Nat} {t t' : Tree} {p : Path}
    {made : Except Fault Unit}
    (h : createDirectoriesFrom fuel t p = (made, t')) : Extends Eq t t' := by
  induction fuel generalizing t p t' made with
  | zero =>
    cases h
    exact .refl (fun _ => rfl) t
  | succ fuel ih =>
    unfold createDirectoriesFrom at h
    split at h
    · cases h
      exact .refl (fun _ => rfl) t
    · split at h
      · rename_i own
        cases h
        exact createDirectory_extends own
      · split at h
        · cases h
          exact .refl (fun _ => rfl) t
        · split at h
          · rename_i above
            cases h
            exact ih above
          · rename_i above
            have first := ih above
            split at h
            · rename_i own
              cases h
              exact first.trans (fun _ _ _ => Eq.trans) (createDirectory_extends own)
            · split at h <;> cases h <;> exact first
      · split at h <;> cases h <;> exact .refl (fun _ => rfl) t

theorem createDirectoriesFrom_isDirectory {fuel : Nat} {t t' : Tree} {p : Path}
    (nonempty : p.text.isEmpty = false) (slash : endsWithSlash p = false)
    (h : createDirectoriesFrom fuel t p = (.ok (), t')) : t'.isDirectory p = true := by
  cases fuel with
  | zero => cases h
  | succ fuel =>
    unfold createDirectoriesFrom at h
    rw [if_neg (by simp [nonempty])] at h
    split at h
    · rename_i own
      cases h
      exact createDirectory_isDirectory slash own
    · split at h
      · cases h
      · split at h
        · cases h
        · split at h
          · rename_i own
            cases h
            exact createDirectory_isDirectory slash own
          · split at h
            · rename_i there
              cases h
              exact there
            · cases h
    · split at h
      · rename_i there
        cases h
        exact there
      · cases h

theorem createDirectories_of_isDirectory {t : Tree} {p : Path} (nonempty : p.text.isEmpty = false)
    (slash : endsWithSlash p = false) (there : t.isDirectory p = true) :
    t.createDirectories p = (.ok (), t) := by
  obtain ⟨at_, way⟩ := isDirectory_iff.1 there
  have exists_ : t.createDirectory p = .error .alreadyExists := by
    unfold createDirectory
    dsimp only
    rw [dropEnd_of_endsWithSlash slash]
    simp [String.ofList_toList, way]
  unfold createDirectories createDirectoriesFrom
  rw [if_neg (by simp [nonempty])]
  simp [exists_, there]

end Toolwright.Files.Tree
