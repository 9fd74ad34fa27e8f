import Toolwright.Proofs.Files.Write

/-!
Files of one directory. Paths that agree up to their last name are followed alike, so writing one
of them neither moves the others nor decides whether they can be written. Where a path is written
and what is there decide what is read from it.
-/

namespace Toolwright.Files.Tree

/-- A path ends with a name; what comes before the name is followed from the root or from home. -/
structure EndsWith (p : Path) (absolute : Bool) (before : List Part) (name : String) : Prop where
  absolute : p.isAbsolute = absolute
  parts : partsOf p = before ++ [.name name]

section Places

variable {t : Tree} {p : Path}

theorem endsWithSlash_of_parts {before : List Part} {name : String}
    (h : partsOf p = before ++ [.name name]) : endsWithSlash p = false := by
  cases slash : endsWithSlash p with
  | false => rfl
  | true =>
    obtain ⟨others, stays⟩ := partsOf_of_endsWithSlash slash
    rw [stays] at h
    cases (List.append_inj' h rfl).2

theorem read_eq (plain : endsWithSlash p = false) :
    t.read p =
      match t.fileTarget p with
      | .error fault => .error fault
      | .ok at_ =>
        match t.get? at_ with
        | some (.file content) => .ok content
        | _ => .error .notFound := by
  unfold Tree.read find fileTarget
  simp only [plain, Bool.false_eq_true, if_false]
  cases place : t.locate p with
  | error fault => rfl
  | ok place' =>
    cases place' with
    | vacant at_ =>
      obtain ⟨_, _, _, way⟩ := locate_eq_ok.1 place
      obtain ⟨_, free, _⟩ := walk_vacant way
      simp [free]
    | entry at_ e =>
      cases e with
      | directory => rfl
      | file content => simp [(locate_file place).2.2]

end Places

section Beside

variable {t : Tree} {p q : Path} {absolute : Bool} {before : List Part} {name other : String}
  {above at_ : Location}

theorem walk_before {from_ : Location} {e : Entry} {last : Part} {place : Place}
    (way : t.walk from_ e (before ++ [last]) = .ok place) :
    ∃ above, t.walk from_ e before = .ok (.entry above .directory) := by
  induction before generalizing from_ e with
  | nil =>
    cases e with
    | file content => cases way
    | directory => exact ⟨from_, rfl⟩
  | cons part rest ih =>
    cases e with
    | file content => cases way
    | directory =>
      cases part with
      | stay => exact ih way
      | up => exact ih way
      | name step =>
        simp only [walk, List.cons_append] at way ⊢
        split at way
        · cases way
        · rename_i short
          rw [if_neg short]
          cases held : t.get? (from_ ++ [step]) with
          | none =>
            rw [held] at way
            cases rest <;> cases way
          | some e =>
            rw [held] at way
            exact ih way

/-- The directory that a path leads to before its last name. -/
def Above (t : Tree) (absolute : Bool) (before : List Part) (above : Location) : Prop :=
  ∃ start, (if absolute then some ([], .directory) else (t.get? t.home).map (t.home, ·)) =
    some start ∧ t.walk start.1 start.2 before = .ok (.entry above .directory)

def nameTarget (t : Tree) (above : Location) (name : String) : Except Fault Location :=
  if nameLimit < name.utf8ByteSize then .error .nameTooLong
  else
    match t.get? (above ++ [name]) with
    | some .directory => .error .isDirectory
    | _ => .ok (above ++ [name])

theorem locate_of_admitted (admitted : Admitted p) (t : Tree) : t.locate p =
    match startOf? t p with
    | some start => t.walk start.1 start.2 (partsOf p)
    | none => .error .notFound := by
  unfold locate startOf?
  rw [if_neg (by simpa using admitted.nul), if_neg (by simpa using admitted.nonempty),
    if_neg admitted.short]
  split
  · rfl
  · cases t.get? t.home <;> rfl

theorem locate_of_above (ends : EndsWith p absolute before name) (admitted : Admitted p)
    (leads : Above t absolute before above) :
    t.locate p = t.walk above .directory [.name name] := by
  obtain ⟨start, hstart, way⟩ := leads
  have begins : startOf? t p = some start := by rw [startOf?, ends.absolute, hstart]
  rw [locate_of_admitted admitted, begins]
  dsimp only
  rw [ends.parts, walk_append way]

theorem fileTarget_of_above (ends : EndsWith p absolute before name) (admitted : Admitted p)
    (leads : Above t absolute before above) : t.fileTarget p = t.nameTarget above name := by
  simp only [fileTarget, endsWithSlash_of_parts ends.parts, Bool.false_eq_true, if_false,
    locate_of_above ends admitted leads, walk, nameTarget]
  by_cases long : nameLimit < name.utf8ByteSize
  · simp [long]
  · simp only [long, if_false]
    cases held : t.get? (above ++ [name]) with
    | none => rfl
    | some e => cases e <;> rfl

theorem above_of_fileTarget (ends : EndsWith p absolute before name)
    (target : t.fileTarget p = .ok at_) :
    Admitted p ∧ ∃ above, Above t absolute before above ∧ at_ = above ++ [name] := by
  have located : ∃ place, t.locate p = .ok place := by
    rcases fileTarget_eq_ok target with way | ⟨_, way⟩ <;> exact ⟨_, way⟩
  obtain ⟨place, way⟩ := located
  obtain ⟨admitted, start, hstart, way⟩ := locate_eq_ok.1 way
  rw [ends.parts] at way
  obtain ⟨above, ahead⟩ := walk_before way
  have leads : Above t absolute before above :=
    ⟨start, by rw [← hstart, startOf?, ends.absolute], ahead⟩
  refine ⟨admitted, above, leads, ?_⟩
  rw [fileTarget_of_above ends admitted leads, nameTarget] at target
  split at target
  · cases target
  · split at target <;> cases target
    rfl

theorem Above.unique {other : Location} (h : Above t absolute before above)
    (h' : Above t absolute before other) : above = other := by
  obtain ⟨start, hstart, way⟩ := h
  obtain ⟨start', hstart', way'⟩ := h'
  cases hstart.symm.trans hstart'
  cases way.symm.trans way'
  rfl

theorem name_eq_of_fileTarget (hp : EndsWith p absolute before name)
    (hq : EndsWith q absolute before other) (target : t.fileTarget p = .ok at_)
    (target' : t.fileTarget q = .ok at_) : name = other := by
  obtain ⟨_, above, leads, rfl⟩ := above_of_fileTarget hp target
  obtain ⟨_, above', leads', same⟩ := above_of_fileTarget hq target'
  obtain rfl := leads.unique leads'
  simpa using same

theorem locate_of_not_admitted (h : ¬ Admitted p) (t t' : Tree) : t.locate p = t'.locate p := by
  unfold locate
  by_cases nul : p.text.toList.contains '\x00' = true
  · simp only [if_pos nul]
  · by_cases empty : p.text.isEmpty = true
    · simp only [if_neg nul, if_pos empty]
    · by_cases long : pathLimit < p.text.utf8ByteSize
      · simp only [if_neg nul, if_neg empty, if_pos long]
      · exact absurd ⟨by simpa using nul, by simpa using empty, long⟩ h

theorem Above.mono {t' : Tree} (grows : Extends Entry.SameKind t t')
    (h : Above t absolute before above) : Above t' absolute before above := by
  obtain ⟨start, hstart, way⟩ := h
  have begins : ∃ e,
      (if absolute then some ([], .directory) else (t'.get? t'.home).map (t'.home, ·)) =
        some (start.1, e) ∧ start.2.SameKind e := by
    cases absolute with
    | true =>
      cases hstart
      exact ⟨_, rfl, rfl⟩
    | false =>
      obtain ⟨home, hhome, rfl⟩ := Option.map_eq_some_iff.1 hstart
      obtain ⟨e, held, kind⟩ := grows.entry _ _ hhome
      exact ⟨e, by simp [grows.home, held], kind⟩
  obtain ⟨e, hbegins, kind⟩ := begins
  obtain ⟨last, way', same⟩ := grows.walk (fun _ _ same => same) rfl kind way
  obtain rfl := same.directory
  exact ⟨(start.1, e), hbegins, way'⟩

theorem fileTarget_put (hp : EndsWith p absolute before name)
    (hq : EndsWith q absolute before other) (target : t.fileTarget q = .ok at_)
    (content : ByteArray) : (t.put at_ (.file content)).fileTarget p = t.fileTarget p := by
  by_cases admitted : Admitted p
  · obtain ⟨_, above, leads, rfl⟩ := above_of_fileTarget hq target
    have later := leads.mono (fileTarget_extends target content)
    rw [fileTarget_of_above hp admitted leads, fileTarget_of_above hp admitted later]
    unfold nameTarget
    by_cases same : name = other
    · subst same
      rw [get?_put_self t (by simp)]
      rcases fileTarget_eq_ok target with way | ⟨old, way⟩
      · obtain ⟨_, _, _, way⟩ := locate_eq_ok.1 way
        rw [(walk_vacant way).2.1]
      · rw [(locate_file way).2.2]
    · rw [get?_put_of_ne t (by simpa using same)]
  · simp only [fileTarget, endsWithSlash_of_parts hp.parts, Bool.false_eq_true, if_false,
      locate_of_not_admitted admitted (t.put at_ (.file content)) t]

theorem fileTarget_ne_nil (target : t.fileTarget p = .ok at_) : at_ ≠ [] := by
  rcases fileTarget_eq_ok target with way | ⟨old, way⟩
  · obtain ⟨_, _, _, way⟩ := locate_eq_ok.1 way
    exact (walk_vacant way).1
  · exact (locate_file way).2.1

end Beside

end Toolwright.Files.Tree
