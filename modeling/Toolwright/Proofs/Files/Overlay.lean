import Toolwright.Proofs.Files.Laying

/-!
The same done in two trees, one of which has more in it. What is written in both becomes the same in
both, and a directory that only one of them lacks is made in that one. Trees that came from one tree
by changes that do not contradict each other are laid over one another, and it does not matter in
which order.
-/

namespace Toolwright.Files.Tree

variable {own : Location → Prop} {t u a v w : Tree} {p : Path} {above at_ : Location}
  {name : String} {e : Entry} {parts : List Part} {absolute : Bool} {before : List Part}

theorem Rooted.get?_dropLast (rooted : t.Rooted) (held : t.get? at_ = some .directory) :
    t.get? at_.dropLast = some .directory := by
  rcases List.eq_nil_or_concat' at_ with rfl | ⟨outer, name, rfl⟩
  · exact get?_nil t
  · rw [List.dropLast_concat]
    exact rooted _ _ _ held

theorem Rooted.get?_walk {found : Location} {last : Entry} (rooted : t.Rooted)
    (held : t.get? at_ = some e) (way : t.walk at_ e parts = .ok (.entry found last)) :
    t.get? found = some last := by
  induction parts generalizing at_ e with
  | nil =>
    cases way
    exact held
  | cons part rest ih =>
    cases e with
    | file content => cases way
    | directory =>
      cases part with
      | stay => exact ih held way
      | up => exact ih (rooted.get?_dropLast held) way
      | name name =>
        simp only [walk] at way
        split at way
        · cases way
        · cases held' : t.get? (at_ ++ [name]) with
          | none =>
            rw [held'] at way
            cases rest <;> cases way
          | some e' =>
            rw [held'] at way
            exact ih held' way

theorem Rooted.get?_above (rooted : t.Rooted) (h : Above t absolute before above) :
    t.get? above = some .directory := by
  obtain ⟨start, hstart, way⟩ := h
  exact rooted.get?_walk (start_eq hstart).2 way

theorem Rooted.get?_locate (rooted : t.Rooted) (way : t.locate p = .ok (.entry at_ e)) :
    t.get? at_ = some e := by
  obtain ⟨_, start, hstart, way⟩ := locate_eq_ok.1 way
  exact rooted.get?_walk (start_eq hstart).2 way

def Standing (t : Tree) (p : Path) : Prop :=
  ∃ above name, EndsWith p p.isAbsolute (partsOf p).dropLast name ∧
    Above t p.isAbsolute (partsOf p).dropLast above ∧ t.aim p = above ++ [name]

theorem standing_of_above (ends : EndsWith p absolute before name)
    (leads : Above t absolute before above) : Standing t p := by
  obtain ⟨rfl, parts⟩ := ends
  have front : (partsOf p).dropLast = before := by rw [parts, List.dropLast_concat]
  refine ⟨above, name, ⟨rfl, by rw [front, parts]⟩, by rwa [front], ?_⟩
  rw [aim, parts, aimFrom_append, ← leads.aim_eq]
  rfl

theorem Standing.mono (grows : Extends Entry.SameKind t u) (h : Standing t p) : Standing u p := by
  obtain ⟨above, name, ends, leads, aim⟩ := h
  exact ⟨above, name, ends, leads.mono grows, by rw [aim_congr grows.home, aim]⟩

/-- What made `a` of `t` made `v` of `u`, where it was not done before. The places in `own` are the
same in both. -/
structure Follows (own : Location → Prop) (t u a v : Tree) : Prop where
  grows : Extends Entry.SameKind a v
  own : ∀ at_, own at_ → v.get? at_ = a.get? at_
  done : ∀ at_, a.get? at_ ≠ t.get? at_ → v.get? at_ = a.get? at_
  only : ∀ at_, v.get? at_ ≠ u.get? at_ → v.get? at_ = a.get? at_
  rooted : a.Rooted

theorem Follows.start (grows : Extends Entry.SameKind t u)
    (same : ∀ at_, own at_ → u.get? at_ = t.get? at_) (rooted : t.Rooted) : Follows own t u t u :=
  ⟨grows, same, fun _ changed => absurd rfl changed, fun _ changed => absurd rfl changed, rooted⟩

theorem Follows.put (h : Follows own t u a v) (there : a.get? above = some .directory)
    (kept : ∀ old, a.get? (above ++ [name]) = some old → old.SameKind e) :
    Follows own t u (a.put (above ++ [name]) e) (v.put (above ++ [name]) e) := by
  have cases_ : ∀ {P : Location → Prop},
      ((v.put (above ++ [name]) e).get? (above ++ [name]) =
        (a.put (above ++ [name]) e).get? (above ++ [name]) → P (above ++ [name])) →
      (∀ at_, at_ ≠ above ++ [name] → (v.put (above ++ [name]) e).get? at_ = v.get? at_ →
        (a.put (above ++ [name]) e).get? at_ = a.get? at_ → P at_) → ∀ at_, P at_ := by
    intro P here elsewhere at_
    by_cases same : at_ = above ++ [name]
    · subst same
      exact here (by rw [get?_put_self v (by simp), get?_put_self a (by simp)])
    · exact elsewhere at_ same (get?_put_of_ne v same e) (get?_put_of_ne a same e)
  refine ⟨⟨h.grows.home, ?_⟩, ?_, ?_, ?_, h.rooted.put there kept⟩
  · refine cases_ (fun both e' held => ?_) fun at_ _ inV inA e' held => ?_
    · exact ⟨e', both.trans held, rfl⟩
    · rw [inA] at held
      rw [inV]
      exact h.grows.entry at_ e' held
  · refine cases_ (fun both _ => both) fun at_ _ inV inA mine => ?_
    rw [inV, inA]
    exact h.own at_ mine
  · refine cases_ (fun both _ => both) fun at_ _ inV inA changed => ?_
    rw [inA] at changed
    rw [inV, inA]
    exact h.done at_ changed
  · refine cases_ (fun both _ => both) fun at_ _ inV inA changed => ?_
    rw [inV] at changed
    rw [inV, inA]
    exact h.only at_ changed

theorem Follows.make (h : Follows own t u a v) (there : a.get? above = some .directory)
    (free : a.get? (above ++ [name]) = none) (held : v.get? (above ++ [name]) = some .directory) :
    Follows own t u (a.put (above ++ [name]) .directory) v := by
  have same : ∀ at_, v.get? at_ = a.get? at_ → v.get? at_ =
      (a.put (above ++ [name]) .directory).get? at_ := by
    intro at_ both
    by_cases here : at_ = above ++ [name]
    · subst here
      rw [get?_put_self a (by simp), held]
    · rw [get?_put_of_ne a here, both]
  refine ⟨⟨h.grows.home, fun at_ e found => ?_⟩, fun at_ mine => same at_ (h.own at_ mine),
    fun at_ changed => ?_, fun at_ changed => same at_ (h.only at_ changed), h.rooted.put there ?_⟩
  · by_cases here : at_ = above ++ [name]
    · subst here
      rw [get?_put_self a (by simp)] at found
      cases found
      exact ⟨_, held, rfl⟩
    · rw [get?_put_of_ne a here] at found
      exact h.grows.entry at_ e found
  · by_cases here : at_ = above ++ [name]
    · subst here
      rw [get?_put_self a (by simp), held]
    · rw [get?_put_of_ne a here] at changed ⊢
      exact h.done at_ changed
  · intro old found
    rw [free] at found
    cases found

theorem Follows.lay (h : Follows own t u a v) (there : a.get? at_ = some .directory)
    (climbs : a.Climbs at_ parts)
    (open_ : ∀ found, found <+: aimFrom at_ parts → a.get? found = none →
      ∀ content, v.get? found ≠ some (.file content)) :
    (v.lay at_ parts).1 = (a.lay at_ parts).1 ∧
      Follows own t u (a.lay at_ parts).2 (v.lay at_ parts).2 := by
  induction parts generalizing a v at_ with
  | nil => exact ⟨rfl, h⟩
  | cons part rest ih =>
    cases part with
    | stay => exact ih h there climbs.stay open_
    | up => exact ih h (h.rooted.get?_dropLast there) climbs.up open_
    | name name =>
      simp only [Tree.lay, aimFrom] at open_ ⊢
      by_cases long : nameLimit < name.utf8ByteSize
      · simp only [if_pos long]
        exact ⟨trivial, h⟩
      · simp only [if_neg long]
        cases held : a.get? (at_ ++ [name]) with
        | none =>
          -- behind what is missing the parts lead down, to places that no file is at either
          have down := climbs.down long held
          have there' : (a.put (at_ ++ [name]) .directory).get? (at_ ++ [name]) = some .directory :=
            get?_put_self a (by simp) _
          have free : ∀ found, (a.put (at_ ++ [name]) .directory).get? found = none →
              found ≠ at_ ++ [name] ∧ a.get? found = none := by
            intro found none
            have other : found ≠ at_ ++ [name] := by
              rintro rfl
              rw [there'] at none
              cases none
            exact ⟨other, by rwa [get?_put_of_ne a other] at none⟩
          cases held' : v.get? (at_ ++ [name]) with
          | none =>
            refine ih (h.put there fun old found => ?_) there' (climbs_of_down down)
              fun found inside none content => ?_
            · rw [held] at found
              cases found
            · obtain ⟨other, none⟩ := free found none
              rw [get?_put_of_ne v other]
              exact open_ found inside none content
          | some e =>
            cases e with
            | directory =>
              exact ih (h.make there held held') there' (climbs_of_down down)
                fun found inside none content => open_ found inside (free found none).2 content
            | file content => exact absurd held' (open_ _ (prefix_aimFrom down _) held content)
        | some e =>
          obtain ⟨e', held', kind⟩ := h.grows.entry _ _ held
          rw [held']
          cases e with
          | directory =>
            obtain rfl := kind.directory
            exact ih h held (climbs.into long held) open_
          | file content =>
            obtain ⟨content', rfl⟩ := kind.file
            exact ⟨rfl, h⟩

theorem Follows.fileTarget (h : Follows own t u a v) (stands : Standing a p)
    (mine : own (a.aim p)) : v.fileTarget p = a.fileTarget p := by
  obtain ⟨above, name, ends, leads, aim⟩ := stands
  by_cases admitted : Admitted p
  · rw [fileTarget_of_above ends admitted leads,
      fileTarget_of_above ends admitted (leads.mono h.grows), nameTarget, nameTarget, ← aim,
      h.own _ mine]
  · simp only [Tree.fileTarget, endsWithSlash_of_parts ends.parts, Bool.false_eq_true, if_false,
      locate_of_not_admitted admitted v a]

theorem Follows.put_target (h : Follows own t u a v) (stands : Standing a p)
    (target : a.fileTarget p = .ok at_) (content : ByteArray) :
    Follows own t u (a.put at_ (.file content)) (v.put at_ (.file content)) := by
  obtain ⟨_, _, ends, _, _⟩ := stands
  obtain ⟨_, above, leads, rfl⟩ := above_of_fileTarget ends target
  refine h.put (h.rooted.get?_above leads) fun old held => ?_
  have way := locate_of_fileTarget target held
  rcases fileTarget_eq_ok target with vacant | ⟨_, entry⟩
  · cases vacant.symm.trans way
  · cases entry.symm.trans way
    rfl

theorem Follows.writeText (h : Follows own t u a v) (stands : Standing a p)
    (mine : own (a.aim p)) (text : String) :
    (∃ fault, a.writeText p text = .error fault ∧ v.writeText p text = .error fault) ∨
      ∃ a' v', a.writeText p text = .ok a' ∧ v.writeText p text = .ok v' ∧
      Follows own t u a' v' := by
  have both := h.fileTarget stands mine
  cases target : a.fileTarget p with
  | error fault =>
    exact .inl ⟨fault, writeText_eq_error.2 target, writeText_eq_error.2 (both.trans target)⟩
  | ok at_ =>
    exact .inr ⟨_, _, writeText_eq_ok.2 ⟨at_, target, rfl⟩,
      writeText_eq_ok.2 ⟨at_, both.trans target, rfl⟩, h.put_target stands target _⟩

theorem Follows.read (h : Follows own t u a v) (stands : Standing a p) (mine : own (a.aim p)) :
    v.read p = a.read p := by
  have plain : endsWithSlash p = false := by
    obtain ⟨_, _, ends, _⟩ := stands
    exact endsWithSlash_of_parts ends.parts
  rw [read_eq plain, read_eq plain, h.fileTarget stands mine]
  cases target : a.fileTarget p with
  | error fault => rfl
  | ok at_ =>
    obtain rfl := aim_of_fileTarget target
    dsimp only
    rw [h.own _ mine]

theorem Blocked.read_inside {root : Path} {directory : String} (isDirectory : IsName directory)
    (isName : IsName name) (grows : Extends Entry.SameKind t u)
    (h : Blocked t (root.join ⟨directory⟩)) :
    u.read ((root.join ⟨directory⟩).join ⟨name⟩) =
      t.read ((root.join ⟨directory⟩).join ⟨name⟩) := by
  unfold Tree.read find
  by_cases admitted : Admitted ((root.join ⟨directory⟩).join ⟨name⟩)
  · have nonempty : (root.join ⟨directory⟩).text.isEmpty = false := by
      rw [Path.text_join isDirectory.relative]
      simp [isDirectory.ne_empty]
    obtain ⟨fault, other, way⟩ : ∃ fault, fault ≠ .notFound ∧
        t.locate ((root.join ⟨directory⟩).join ⟨name⟩) = .error fault := by
      have begins : ∀ p : Path, p.isAbsolute = root.isAbsolute →
          startOf? t p = startOf? t root := by
        intro p same
        rw [startOf?, startOf?, same]
      have absolute := Path.isAbsolute_join (p := root) isDirectory
      have inner := (Path.isAbsolute_join isName).trans absolute
      rw [Blocked, locate_of_admitted (admitted.of_join isName.relative nonempty),
        begins _ absolute, Path.partsOf_join isDirectory] at h
      rw [locate_of_admitted admitted, begins _ inner, Path.partsOf_join isName,
        Path.front_join isDirectory]
      cases start : startOf? t root with
      | none => simp [start] at h
      | some start =>
        simp only [start] at h ⊢
        rcases h with ⟨fault, other, way⟩ | ⟨at_, content, way⟩
        · exact ⟨fault, other, walk_append_error other way⟩
        · exact ⟨.notDirectory, by decide, by rw [walk_append way]; rfl⟩
    rw [way, locate_error_mono grows other way]
  · rw [locate_of_not_admitted admitted u t]

/-- The changes that made the trees in `T` of `t` have all been made in `u`, and no others. -/
structure Overlays (T : Tree → Prop) (t u : Tree) : Prop where
  home : u.home = t.home
  only : ∀ at_, u.get? at_ ≠ t.get? at_ → ∃ a, T a ∧ a.get? at_ = u.get? at_
  done : ∀ a, T a → ∀ at_, a.get? at_ ≠ t.get? at_ → u.get? at_ = a.get? at_

section Overlays

variable {T T' : Tree → Prop}

theorem Overlays.start (t : Tree) : Overlays (fun _ => False) t t :=
  ⟨rfl, fun _ changed => absurd rfl changed, fun _ none => none.elim⟩

theorem Overlays.congr (h : Overlays T t u) (same : ∀ a, T' a ↔ T a) : Overlays T' t u :=
  ⟨h.home, fun at_ changed => by simpa only [same] using h.only at_ changed,
    fun a among => h.done a ((same a).1 among)⟩

theorem Overlays.unique (h : Overlays T t u) (h' : Overlays T t v) (at_ : Location) :
    u.get? at_ = v.get? at_ := by
  by_cases changed : u.get? at_ = t.get? at_
  · by_cases changed' : v.get? at_ = t.get? at_
    · rw [changed, changed']
    · obtain ⟨a, among, same⟩ := h'.only at_ changed'
      exact (h.done a among at_ (same ▸ changed')).trans same
  · obtain ⟨a, among, same⟩ := h.only at_ changed
    exact ((h'.done a among at_ (same ▸ changed)).trans same).symm

theorem Overlays.next (h : Overlays T t u) (follows : Follows own t u a v)
    (grows : Extends Entry.SameKind t a)
    (fresh : ∀ at_, v.get? at_ ≠ u.get? at_ → u.get? at_ = t.get? at_) :
    Overlays (fun b => T b ∨ b = a) t v := by
  refine ⟨follows.grows.home.trans grows.home, fun at_ changed => ?_, ?_⟩
  · by_cases now : v.get? at_ = u.get? at_
    · obtain ⟨b, among, same⟩ := h.only at_ (now ▸ changed)
      exact ⟨b, .inl among, same.trans now.symm⟩
    · exact ⟨a, .inr rfl, (follows.only at_ now).symm⟩
  · rintro b (among | rfl) at_ changed
    · have before := h.done b among at_ changed
      have now : v.get? at_ = u.get? at_ := by
        by_contra now
        exact changed (before.symm.trans (fresh at_ now))
      exact now.trans before
    · exact follows.done at_ changed

variable (each : ∀ a, T a → Extends Entry.SameKind t a)

include each

theorem Overlays.grows (h : Overlays T t u) : Extends Entry.SameKind t u := by
  refine ⟨h.home, fun at_ e held => ?_⟩
  by_cases changed : u.get? at_ = t.get? at_
  · exact ⟨e, changed.trans held, rfl⟩
  · obtain ⟨a, among, same⟩ := h.only at_ changed
    rw [← same]
    exact (each a among).entry at_ e held

theorem Overlays.extends_of (h : Overlays T t u) (among : T a) : Extends Entry.SameKind a u := by
  refine ⟨h.home.trans (each a among).home.symm, fun at_ e held => ?_⟩
  by_cases changed : a.get? at_ = t.get? at_
  · exact (h.grows each).entry at_ e (changed ▸ held)
  · exact ⟨e, (h.done a among at_ changed).trans held, rfl⟩

theorem Overlays.rooted (h : Overlays T t u) (rooted : t.Rooted) (others : ∀ a, T a → a.Rooted) :
    u.Rooted := by
  intro at_ name e held
  by_cases changed : u.get? (at_ ++ [name]) = t.get? (at_ ++ [name])
  · obtain ⟨e', there, kind⟩ := (h.grows each).entry _ _ (rooted _ _ _ (changed ▸ held))
    rw [there, kind.directory]
  · obtain ⟨a, among, same⟩ := h.only _ changed
    obtain ⟨e', there, kind⟩ :=
      (h.extends_of each among).entry _ _ (others a among _ _ _ (same.trans held))
    rw [there, kind.directory]

theorem Overlays.read_eq (h : Overlays T t u) (home : HasHome t)
    (apart : Admitted p → ∀ at_, t.gap? p = some at_ ∨ Leads t p at_ →
      ∀ a, T a → a.get? at_ = t.get? at_) : u.read p = t.read p := by
  by_cases admitted : Admitted p
  · have kept : ∀ at_, t.gap? p = some at_ ∨ Leads t p at_ → u.get? at_ = t.get? at_ := by
      intro at_ there
      by_contra changed
      obtain ⟨a, among, same⟩ := h.only at_ changed
      exact changed (same ▸ apart admitted at_ there a among)
    refine read_of_shape ((h.grows each).locate_eq home fun found gap => ?_)
      fun at_ _ way => kept at_ (.inr ⟨_, way⟩)
    rw [kept found (.inl gap)]
    exact get?_gapFrom gap
  · unfold Tree.read find
    rw [locate_of_not_admitted admitted u t]

end Overlays

end Toolwright.Files.Tree
