import Toolwright.Files.Tree
import Toolwright.Proofs.Text.Part

/-!
Following paths in trees that grow. A tree extends another one when it has an entry wherever the
other has one; entries are compared by a relation, so that contents may change or not. Whatever a
path leads to in a tree it leads to in its extensions, and a path that leads to a file ends with
the file's name.
-/

namespace Toolwright.Files

def Entry.SameKind (e e' : Entry) : Prop := e.isDirectory = e'.isDirectory

theorem Entry.SameKind.file {content : ByteArray} {e : Entry} (h : SameKind (.file content) e) :
    ∃ content', e = .file content' := by
  cases e with
  | directory => cases h
  | file content' => exact ⟨content', rfl⟩

theorem Entry.SameKind.directory {e : Entry} (h : SameKind .directory e) : e = .directory := by
  cases e with
  | directory => rfl
  | file content => cases h

namespace Tree

/-- Wherever `t` has an entry `t'` has a related one, and relative paths begin at the same place. -/
structure Extends (R : Entry → Entry → Prop) (t t' : Tree) : Prop where
  home : t'.home = t.home
  entry : ∀ at_ e, t.get? at_ = some e → ∃ e', t'.get? at_ = some e' ∧ R e e'

section Relation

variable {R : Entry → Entry → Prop} {t t' t'' : Tree}

theorem Extends.refl (hR : ∀ e, R e e) (t : Tree) :
    Extends R t t := ⟨rfl, fun _ e he => ⟨e, he, hR e⟩⟩

theorem Extends.trans (hR : ∀ a b c, R a b → R b c → R a c) (h : Extends R t t')
    (h' : Extends R t' t'') : Extends R t t'' := by
  refine ⟨h'.home.trans h.home, fun at_ e he => ?_⟩
  obtain ⟨e', he', first⟩ := h.entry at_ e he
  obtain ⟨e'', he'', second⟩ := h'.entry at_ e' he'
  exact ⟨e'', he'', hR e e' e'' first second⟩

theorem Extends.put (hR : ∀ e, R e e) {at_ : Location} {entry : Entry} (hne : at_ ≠ [])
    (hold : ∀ e, t.get? at_ = some e → R e entry) : Extends R t (t.put at_ entry) := by
  refine ⟨rfl, fun other e he => ?_⟩
  by_cases same : other = at_
  · subst same
    exact ⟨entry, get?_put_self t hne entry, hold e he⟩
  · exact ⟨e, by rw [get?_put_of_ne t same, he], hR e⟩

theorem Extends.walk (hkind : ∀ e e', R e e' → e.SameKind e') (hdir : R .directory .directory)
    (h : Extends R t t') {parts : List Part} {at_ found : Location} {e e' last : Entry}
    (start : R e e') (way : t.walk at_ e parts = .ok (.entry found last)) :
    ∃ last', t'.walk at_ e' parts = .ok (.entry found last') ∧ R last last' := by
  induction parts generalizing at_ e e' with
  | nil =>
    cases way
    exact ⟨e', rfl, start⟩
  | cons part rest ih =>
    cases e with
    | file content => cases way
    | directory =>
      obtain rfl := (hkind _ _ start).directory
      cases part with
      | stay => exact ih hdir way
      | up => exact ih hdir way
      | name name =>
        simp only [Tree.walk] at way ⊢
        split at way
        · cases way
        · rename_i short
          rw [if_neg short]
          cases held : t.get? (at_ ++ [name]) with
          | none =>
            rw [held] at way
            cases rest <;> cases way
          | some e =>
            obtain ⟨e', held', related⟩ := h.entry _ e held
            rw [held] at way
            rw [held']
            exact ih related way

end Relation

theorem walk_append {t : Tree} {before : List Part} {at_ found : Location} {e last : Entry}
    (way : t.walk at_ e before = .ok (.entry found last)) (more : List Part) :
    t.walk at_ e (before ++ more) = t.walk found last more := by
  induction before generalizing at_ e with
  | nil =>
    cases way
    rfl
  | cons part rest ih =>
    cases e with
    | file content => cases way
    | directory =>
      cases part with
      | stay => exact ih way
      | up => exact ih way
      | name name =>
        simp only [walk, List.cons_append] at way ⊢
        split at way
        · cases way
        · rename_i short
          rw [if_neg short]
          cases held : t.get? (at_ ++ [name]) with
          | none =>
            rw [held] at way
            cases rest <;> cases way
          | some e =>
            rw [held] at way
            exact ih way

theorem walk_file {t : Tree} {parts : List Part} {at_ found : Location} {e : Entry}
    {content : ByteArray} (hne : parts ≠ [])
    (way : t.walk at_ e parts = .ok (.entry found (.file content))) :
    ∃ before name above, parts = before ++ [.name name] ∧
      t.walk at_ e before = .ok (.entry above .directory) ∧ found = above ++ [name] ∧
      t.get? found = some (.file content) := by
  -- dots ask for a directory, so a way to a file does not end with one
  induction parts generalizing at_ e with
  | nil => exact absurd rfl hne
  | cons part rest ih =>
    cases e with
    | file content => cases way
    | directory =>
      cases part with
      | stay =>
        cases rest with
        | nil => cases way
        | cons next rest =>
          obtain ⟨before, name, above, split, way, last⟩ := ih (by simp) way
          exact ⟨.stay :: before, name, above, by rw [split]; rfl, way, last⟩
      | up =>
        cases rest with
        | nil => cases way
        | cons next rest =>
          obtain ⟨before, name, above, split, way, last⟩ := ih (by simp) way
          exact ⟨.up :: before, name, above, by rw [split]; rfl, way, last⟩
      | name name =>
        simp only [walk] at way
        split at way
        · cases way
        · rename_i short
          cases held : t.get? (at_ ++ [name]) with
          | none =>
            rw [held] at way
            cases rest <;> cases way
          | some e =>
            rw [held] at way
            cases rest with
            | nil =>
              cases way
              exact ⟨[], name, at_, rfl, rfl, rfl, held⟩
            | cons next rest =>
              obtain ⟨before, last, above, split, way, ends⟩ := ih (by simp) way
              refine ⟨.name name :: before, last, above, by rw [split]; rfl, ?_, ends⟩
              simp only [walk, if_neg short, held]
              exact way

theorem walk_vacant {t : Tree} {parts : List Part} {at_ free : Location} {e : Entry}
    (way : t.walk at_ e parts = .ok (.vacant free)) :
    free ≠ [] ∧ t.get? free = none ∧
      ∀ entry, (t.put free entry).walk at_ e parts = .ok (.entry free entry) := by
  induction parts generalizing at_ e with
  | nil => cases way
  | cons part rest ih =>
    cases e with
    | file content => cases way
    | directory =>
      cases part with
      | stay => exact ih way
      | up => exact ih way
      | name name =>
        simp only [walk] at way ⊢
        split at way
        · cases way
        · rename_i short
          simp only [if_neg short]
          cases held : t.get? (at_ ++ [name]) with
          | none =>
            rw [held] at way
            cases rest with
            | nil =>
              cases way
              refine ⟨by simp, held, fun entry => ?_⟩
              rw [get?_put_self t (by simp)]
              rfl
            | cons next rest => cases way
          | some e =>
            rw [held] at way
            obtain ⟨hne, none_there, found⟩ := ih way
            refine ⟨hne, none_there, fun entry => ?_⟩
            have other : at_ ++ [name] ≠ free := by
              rintro rfl
              rw [held] at none_there
              cases none_there
            rw [get?_put_of_ne t other, held]
            exact found entry

end Tree

end Toolwright.Files
