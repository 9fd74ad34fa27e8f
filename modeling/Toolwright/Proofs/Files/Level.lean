import Toolwright.Proofs.Files.Places

/-!
Trees that differ in the contents of some files only. Paths lead to the same places in both, so
whatever is not among those files is read alike, and can be written or not in both.
-/

namespace Toolwright.Files.Tree

variable {X : Location → Prop} {t u : Tree} {p : Path} {at_ : Location}

/-- The trees have the same entries, and only files in `X` have other contents. -/
structure Level (X : Location → Prop) (t u : Tree) : Prop where
  within : Within X t u
  back : Extends Entry.SameKind u t

theorem Level.refl (X : Location → Prop) (t : Tree) : Level X t t :=
  ⟨.refl X t, .sameKind_refl t⟩

/-- A place, without the content of the file that may be there. -/
def Place.shape : Place → Location × Option Bool
  | .entry at_ e => (at_, some e.isDirectory)
  | .vacant at_ => (at_, none)

theorem Level.walk (h : Level X t u) {parts : List Part} {from_ : Location} {e e' : Entry}
    (kind : e.SameKind e') :
    (u.walk from_ e' parts).map Place.shape = (t.walk from_ e parts).map Place.shape := by
  induction parts generalizing from_ e e' with
  | nil => simp [Tree.walk, Except.map, Place.shape, show e.isDirectory = e'.isDirectory from kind]
  | cons part rest ih =>
    cases e with
    | file content =>
      obtain ⟨content', rfl⟩ := kind.file
      rfl
    | directory =>
      obtain rfl := kind.directory
      cases part with
      | stay => exact ih rfl
      | up => exact ih rfl
      | name name =>
        simp only [Tree.walk]
        by_cases long : nameLimit < name.utf8ByteSize
        · simp only [if_pos long]
        · simp only [if_neg long]
          cases held : t.get? (from_ ++ [name]) with
          | none =>
            rw [h.back.get?_eq_none held]
            cases rest <;> rfl
          | some e =>
            obtain ⟨e', held', kind⟩ := h.within.grows.entry _ _ held
            rw [held']
            exact ih kind

theorem Level.locate (h : Level X t u) (p : Path) :
    (u.locate p).map Place.shape = (t.locate p).map Place.shape := by
  by_cases admitted : Admitted p
  · rw [locate_of_admitted admitted, locate_of_admitted admitted]
    unfold startOf?
    by_cases absolute : p.isAbsolute = true
    · simp only [if_pos absolute]
      exact h.walk rfl
    · simp only [if_neg absolute, h.within.grows.home]
      cases home : t.get? t.home with
      | none =>
        rw [h.back.get?_eq_none home]
        rfl
      | some e =>
        obtain ⟨e', home', kind⟩ := h.within.grows.entry _ _ home
        rw [home']
        exact h.walk kind
  · rw [locate_of_not_admitted admitted u t]

theorem Level.fileTarget (h : Level X t u) (p : Path) : u.fileTarget p = t.fileTarget p := by
  have told : ∀ v : Tree, v.fileTarget p =
      match (v.locate (if endsWithSlash p then
        ⟨String.ofList (Text.dropEnd (· == '/') p.text.toList)⟩ else p)).map Place.shape with
      | .ok (at_, some false) => if endsWithSlash p then .error .isDirectory else .ok at_
      | .ok (_, some true) => .error .isDirectory
      | .ok (at_, none) => if endsWithSlash p then .error .isDirectory else .ok at_
      | .error fault => .error fault := by
    intro v
    unfold Tree.fileTarget
    dsimp only
    cases v.locate _ with
    | error fault => rfl
    | ok place =>
      cases place with
      | vacant at_ => rfl
      | entry at_ e => cases e <;> rfl
  rw [told, told, h.locate]

theorem read_of_shape (shapes : (u.locate p).map Place.shape = (t.locate p).map Place.shape)
    (same : ∀ at_ content, t.locate p = .ok (.entry at_ (.file content)) →
      u.get? at_ = t.get? at_) :
    u.read p = t.read p := by
  unfold Tree.read find
  cases way : t.locate p with
  | error fault =>
    rw [way] at shapes
    cases way' : u.locate p with
    | error fault' =>
      rw [way'] at shapes
      cases shapes
      rfl
    | ok place =>
      rw [way'] at shapes
      cases shapes
  | ok place =>
    rw [way] at shapes
    cases way' : u.locate p with
    | error fault =>
      rw [way'] at shapes
      cases shapes
    | ok place' =>
      rw [way'] at shapes
      have shape := Except.ok.inj shapes
      cases place with
      | vacant at_ =>
        cases place' with
        | vacant at_ => rfl
        | entry at_ e => cases shape
      | entry at_ e =>
        cases place' with
        | vacant at_ => cases shape
        | entry found e' =>
          obtain ⟨rfl, kind⟩ := Prod.mk.inj shape
          cases e with
          | directory =>
            cases e' with
            | directory => rfl
            | file content => cases kind
          | file content =>
            cases e' with
            | directory => cases kind
            | file content' =>
              have held := same _ _ way
              rw [(Tree.locate_file way).2.2, (Tree.locate_file way').2.2] at held
              cases held
              rfl

theorem Level.read (h : Level X t u) (apart : ∀ at_, Leads t p at_ → ¬ X at_) :
    u.read p = t.read p :=
  read_of_shape (h.locate p) fun at_ _ way => h.within.kept (apart at_ ⟨_, way⟩)

theorem Level.readText (h : Level X t u) (apart : ∀ at_, Leads t p at_ → ¬ X at_) :
    u.readText p = t.readText p := by
  unfold Tree.readText
  rw [h.read apart]

theorem Level.writeText {content : ByteArray} {text : String} (wellFormed : t.WellFormed)
    (h : Level X t u) (way : t.locate p = .ok (.entry at_ (.file content)))
    (either : content = text.toUTF8 ∨ X at_) :
    ∃ u', u.writeText p text = .ok u' ∧ Level X t u' := by
  have held := (Tree.locate_file way).2.2
  obtain ⟨e, way', kind⟩ := h.within.grows.locate (fun _ _ same => same) rfl way
  obtain ⟨content', rfl⟩ := kind.file
  have target := fileTarget_file way'
  have put := put_within target text.toUTF8
  obtain ⟨_, hne, held'⟩ := Tree.locate_file way'
  refine ⟨_, writeText_eq_ok.2 ⟨at_, target, rfl⟩,
    ⟨h.within.grows.sameKind_trans put.grows, fun other changed => ?_, fun _ => ?_⟩, ?_⟩
  · by_cases here : other = at_
    · subst here
      rcases either with same | among
      · rw [get?_put_self u hne, held, same] at changed
        exact absurd rfl changed
      · exact among
    · rw [get?_put_of_ne u here] at changed
      exact h.within.changed other changed
  · exact put.wellFormed (h.within.wellFormed wellFormed)
  · refine ⟨h.back.home, fun other e there => ?_⟩
    by_cases here : other = at_
    · subst here
      rw [get?_put_self u hne] at there
      cases there
      exact ⟨_, held, rfl⟩
    · rw [get?_put_of_ne u here] at there
      exact h.back.entry other e there

end Toolwright.Files.Tree
