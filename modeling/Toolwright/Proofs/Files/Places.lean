import Toolwright.Proofs.Files.Parent

/-!
What changes in a tree, and where. A path leads to a place once something stands there, and it goes
on leading there while the tree grows. Writing a file changes the one place that its path leads to
afterwards; making directories changes places that were free, to which the path or one above it
leads afterwards.
-/

namespace Toolwright.Files.Tree

variable {t t' t'' : Tree} {p q : Path} {at_ other : Location}

def Leads (t : Tree) (p : Path) (at_ : Location) : Prop := ∃ e, t.locate p = .ok (.entry at_ e)

theorem Leads.unique (h : Leads t p at_) (h' : Leads t p other) : at_ = other := by
  obtain ⟨e, way⟩ := h
  obtain ⟨e', way'⟩ := h'
  cases way.symm.trans way'
  rfl

theorem Leads.mono (grows : Extends Entry.SameKind t t') (h : Leads t p at_) : Leads t' p at_ := by
  obtain ⟨e, way⟩ := h
  obtain ⟨e', way', _⟩ := grows.locate (fun _ _ same => same) rfl way
  exact ⟨e', way'⟩

theorem Extends.locate_file {content : ByteArray} (grows : Extends Entry.SameKind t t')
    (way : t.locate p = .ok (.entry at_ (.file content))) (kept : t'.get? at_ = t.get? at_) :
    t'.locate p = .ok (.entry at_ (.file content)) := by
  obtain ⟨e, way', kind⟩ := grows.locate (fun _ _ same => same) rfl way
  obtain ⟨content', rfl⟩ := kind.file
  have held := (Tree.locate_file way').2.2
  rw [kept, (Tree.locate_file way).2.2] at held
  cases held
  exact way'

theorem locate_of_fileTarget {e : Entry} (target : t.fileTarget p = .ok at_)
    (held : t.get? at_ = some e) : t.locate p = .ok (.entry at_ e) := by
  rcases fileTarget_eq_ok target with way | ⟨old, way⟩
  · obtain ⟨_, _, _, ahead⟩ := locate_eq_ok.1 way
    rw [(walk_vacant ahead).2.1] at held
    cases held
  · rw [(Tree.locate_file way).2.2] at held
    cases held
    exact way

theorem fileTarget_error_mono {absolute : Bool} {before : List Part} {name : String}
    {above : Location} {fault : Fault} (ends : EndsWith p absolute before name)
    (leads : Above t absolute before above) (grows : Extends Entry.SameKind t t')
    (h : t.fileTarget p = .error fault) : t'.fileTarget p = .error fault := by
  by_cases admitted : Admitted p
  · rw [fileTarget_of_above ends admitted leads, nameTarget] at h
    rw [fileTarget_of_above ends admitted (leads.mono grows), nameTarget]
    split at h
    · rename_i long
      rw [if_pos long, h]
    · rename_i short
      rw [if_neg short]
      split at h
      · rename_i held
        obtain ⟨e, there, kind⟩ := grows.entry _ _ held
        rw [there, kind.directory, h]
      · cases h
  · rw [← h]
    simp only [fileTarget, endsWithSlash_of_parts ends.parts, Bool.false_eq_true, if_false,
      locate_of_not_admitted admitted t' t]

theorem Leads.above {absolute : Bool} {before : List Part} {name : String}
    (ends : EndsWith p absolute before name) (h : Leads t p at_) :
    ∃ above, Above t absolute before above ∧ at_ = above ++ [name] := by
  obtain ⟨e, way⟩ := h
  obtain ⟨_, start, hstart, way⟩ := locate_eq_ok.1 way
  rw [ends.parts] at way
  obtain ⟨above, ahead⟩ := walk_before way
  rw [walk_append ahead] at way
  refine ⟨above, ⟨start, by rw [← hstart, startOf?, ends.absolute], ahead⟩, ?_⟩
  rcases walk_name way with place | ⟨_, place⟩ <;> cases place
  rfl

theorem Above.of_snoc {absolute : Bool} {before : List Part} {name : String} {above : Location}
    (h : Above t absolute (before ++ [.name name]) above) :
    ∃ outer, Above t absolute before outer ∧ above = outer ++ [name] := by
  obtain ⟨start, hstart, way⟩ := h
  obtain ⟨outer, ahead⟩ := walk_before way
  rw [walk_append ahead] at way
  refine ⟨outer, ⟨start, hstart, ahead⟩, ?_⟩
  rcases walk_name way with place | ⟨_, place⟩ <;> cases place
  rfl

theorem above_of_locate (way : t.locate p = .ok (.entry at_ .directory)) :
    Above t p.isAbsolute p.front at_ := by
  obtain ⟨_, start, hstart, way⟩ := locate_eq_ok.1 way
  obtain ⟨pieces, split, whole⟩ := p.splitAt_seam
  have front : p.front = pieces.map partOf := by rw [Path.front, split, List.dropLast_concat]
  refine ⟨start, by rw [← hstart]; rfl, ?_⟩
  rw [front]
  rcases whole with whole | whole
  · rwa [partsOf, whole] at way
  · rw [partsOf, whole, List.map_append] at way
    obtain ⟨above, ahead⟩ := walk_before way
    rw [walk_append ahead] at way
    cases way
    exact ahead

theorem isFile_iff : t.isFile p = true ↔
    ∃ at_ content, t.locate p = .ok (.entry at_ (.file content)) := by
  simp only [← find_eq_ok]
  unfold isFile
  split <;> simp_all

theorem readText_congr (same : t'.locate p = t.locate p) : t'.readText p = t.readText p := by
  unfold Tree.readText Tree.read find
  rw [same]

theorem Extends.isFile (grows : Extends Entry.SameKind t t') (h : t.isFile p = true) :
    t'.isFile p = true := by
  obtain ⟨at_, content, way⟩ := isFile_iff.1 h
  obtain ⟨e, way', kind⟩ := grows.locate (fun _ _ same => same) rfl way
  obtain ⟨content', rfl⟩ := kind.file
  exact isFile_iff.2 ⟨at_, content', way'⟩

theorem isFile_congr (same : t'.locate p = t.locate p) : t'.isFile p = t.isFile p := by
  unfold isFile find
  rw [same]

theorem Admitted.of_sublist (h : Admitted p) (nonempty : q.text.isEmpty = false)
    (shorter : q.text.toList.Sublist p.text.toList) : Admitted q := by
  refine ⟨?_, nonempty, fun long => h.short ?_⟩
  · have nul := h.nul
    rw [Bool.eq_false_iff] at nul ⊢
    exact fun inside => nul (List.contains_iff_mem.2
      (shorter.subset (List.contains_iff_mem.1 inside)))
  · have sizes := String.utf8Len_le_of_sublist shorter
    rw [← String.utf8ByteSize_ofList, ← String.utf8ByteSize_ofList, String.ofList_toList,
      String.ofList_toList] at sizes
    omega

theorem Admitted.of_join {more : Path} (relative : more.isAbsolute = false)
    (nonempty : p.text.isEmpty = false) (h : Admitted (p.join more)) : Admitted p := by
  refine h.of_sublist nonempty ?_
  rw [Path.text_join relative, String.append_assoc, String.toList_append]
  exact List.sublist_append_left _ _

theorem Leads.inside {root : Path} {directory name : String} (isDirectory : IsName directory)
    (isName : IsName name) (h : Leads t ((root.join ⟨directory⟩).join ⟨name⟩) at_) :
    ∃ above, t.locate (root.join ⟨directory⟩) = .ok (.entry above .directory) ∧
      at_ = above ++ [name] := by
  obtain ⟨above, ⟨start, hstart, way⟩, rfl⟩ := h.above (Path.endsWith_join isName)
  obtain ⟨_, found⟩ := h
  have nonempty : (root.join ⟨directory⟩).text.isEmpty = false := by
    rw [Path.text_join isDirectory.relative]
    simpa using fun _ _ => isDirectory.ne_empty
  have admitted := (locate_eq_ok.1 found).1.of_join isName.relative nonempty
  rw [Path.front_join isDirectory, ← Path.partsOf_join isDirectory] at way
  exact ⟨above, locate_eq_ok.2 ⟨admitted, start, hstart, way⟩, rfl⟩

def HasHome (t : Tree) : Prop := t.get? t.home = some .directory

theorem HasHome.mono (grows : Extends Entry.SameKind t t') (h : HasHome t) : HasHome t' := by
  obtain ⟨e, there, kind⟩ := grows.entry _ _ h
  rw [HasHome, grows.home, there, kind.directory]

/-- Every place is listed once and can be called as it is, and relative paths begin in a
directory. -/
structure WellFormed (t : Tree) : Prop where
  once : (t.entries.map Prod.fst).Nodup
  named : ∀ at_ ∈ t.entries.map Prod.fst, ∃ above name, at_ = above ++ [name] ∧ IsName name
  home : HasHome t

theorem mem_entries_iff (hne : at_ ≠ []) :
    at_ ∈ t.entries.map Prod.fst ↔ ∃ e, t.get? at_ = some e := by
  rw [get?, if_neg hne]
  induction t.entries with
  | nil => simp
  | cons entry rest ih =>
    obtain ⟨key, e⟩ := entry
    by_cases same : at_ = key
    · simp [same]
    · simp [List.lookup_cons, beq_eq_false_iff_ne.2 same, same, ih]

theorem WellFormed.put {entry : Entry} (h : t.WellFormed)
    (grows : Extends Entry.SameKind t (t.put at_ entry))
    (name : ∃ above name, at_ = above ++ [name] ∧ IsName name) : (t.put at_ entry).WellFormed := by
  have fewer : ((t.entries.filter fun e => e.1 != at_).map Prod.fst).Sublist
      (t.entries.map Prod.fst) := List.filter_sublist.map _
  refine ⟨?_, ?_, h.home.mono grows⟩
  · rw [Tree.put, List.map_cons, List.nodup_cons]
    refine ⟨?_, h.once.sublist fewer⟩
    simp
  · rw [Tree.put, List.map_cons, List.forall_mem_cons]
    exact ⟨name, fun other held => h.named other (fewer.subset held)⟩

theorem isName_of_vacant (way : t.locate p = .ok (.vacant at_)) :
    ∃ above name, at_ = above ++ [name] ∧ IsName name := by
  obtain ⟨_, start, _, way⟩ := locate_eq_ok.1 way
  have among : ∀ {parts : List Part} {from_ : Location} {e : Entry},
      t.walk from_ e parts = .ok (.vacant at_) →
        ∃ above name, at_ = above ++ [name] ∧ .name name ∈ parts := by
    intro parts
    induction parts with
    | nil => nofun
    | cons part rest ih =>
      intro from_ e way
      cases e with
      | file content => cases way
      | directory =>
        have behind : ∀ {from_ e}, t.walk from_ e rest = .ok (.vacant at_) →
            ∃ above name, at_ = above ++ [name] ∧ .name name ∈ part :: rest := by
          intro from_ e way
          obtain ⟨above, name, same, held⟩ := ih way
          exact ⟨above, name, same, List.mem_cons_of_mem _ held⟩
        cases part with
        | stay => exact behind way
        | up => exact behind way
        | name name =>
          simp only [walk] at way
          split at way
          · cases way
          · split at way
            · exact behind way
            · cases way
              exact ⟨from_, name, rfl, List.mem_cons_self⟩
            · cases way
  obtain ⟨above, name, rfl, held⟩ := among way
  obtain ⟨piece, inside, named⟩ := List.mem_map.1 held
  have plain : ∀ c ∈ piece, (c == '/') = false := fun c hc => (Text.of_mem_splitAt inside c hc).2
  exact ⟨above, name, rfl, (isName_of_partOf named plain).1⟩

theorem WellFormed.name_of_fileTarget (h : t.WellFormed) (target : t.fileTarget p = .ok at_) :
    ∃ above name, at_ = above ++ [name] ∧ IsName name := by
  rcases fileTarget_eq_ok target with way | ⟨old, way⟩
  · exact isName_of_vacant way
  · obtain ⟨_, hne, held⟩ := locate_file way
    exact h.named at_ ((mem_entries_iff hne).2 ⟨_, held⟩)

/-- Only what is in `S` has changed, every entry is still of its kind, and a well-formed tree is
well-formed still. -/
structure Within (S : Location → Prop) (t t' : Tree) : Prop where
  grows : Extends Entry.SameKind t t'
  changed : ∀ at_, t'.get? at_ ≠ t.get? at_ → S at_
  wellFormed : t.WellFormed → t'.WellFormed

section Within

variable {S S' : Location → Prop}

theorem Extends.sameKind_refl (t : Tree) : Extends Entry.SameKind t t :=
  .refl (R := Entry.SameKind) (fun _ => rfl) t

theorem Within.refl (S : Location → Prop) (t : Tree) : Within S t t :=
  ⟨.sameKind_refl t, fun _ changed => absurd rfl changed, id⟩

theorem Within.mono (h : Within S t t') (sub : ∀ at_, S at_ → S' at_) : Within S' t t' :=
  ⟨h.grows, fun at_ changed => sub at_ (h.changed at_ changed), h.wellFormed⟩

theorem Extends.sameKind (h : Extends Eq t t') : Extends Entry.SameKind t t' :=
  ⟨h.home, fun at_ e held => by
    obtain ⟨e', there, rfl⟩ := h.entry at_ e held
    exact ⟨e, there, rfl⟩⟩

theorem Extends.sameKind_trans (h : Extends Entry.SameKind t t')
    (h' : Extends Entry.SameKind t' t'') :
    Extends Entry.SameKind t t'' :=
  h.trans (R := Entry.SameKind) (fun _ _ _ => Eq.trans) h'

theorem Within.trans (h : Within S t t') (h' : Within S t' t'') : Within S t t'' := by
  refine ⟨h.grows.sameKind_trans h'.grows, fun at_ changed => ?_, h'.wellFormed ∘ h.wellFormed⟩
  by_cases first : t'.get? at_ = t.get? at_
  · exact h'.changed at_ (first ▸ changed)
  · exact h.changed at_ first

theorem Within.kept (h : Within S t t') (apart : ¬ S at_) : t'.get? at_ = t.get? at_ :=
  Classical.byContradiction fun changed => apart (h.changed at_ changed)

theorem Within.locate_file {content : ByteArray} (h : Within S t t')
    (way : t.locate p = .ok (.entry at_ (.file content))) (apart : ¬ S at_) :
    t'.locate p = .ok (.entry at_ (.file content)) :=
  h.grows.locate_file way (h.kept apart)

theorem Within.readText {text : String} (h : Within S t t') (read : t.readText p = .ok text)
    (apart : ∀ at_, Leads t' p at_ → ¬ S at_) : t'.readText p = .ok text := by
  obtain ⟨at_, way⟩ := readText_eq_ok.1 read
  have there : Leads t' p at_ := Leads.mono h.grows ⟨_, way⟩
  exact readText_eq_ok.2 ⟨at_, h.locate_file way (apart at_ there)⟩

end Within

theorem Extends.get?_eq_none (grows : Extends Entry.SameKind t t') (h : t'.get? at_ = none) :
    t.get? at_ = none := by
  cases held : t.get? at_ with
  | none => rfl
  | some e =>
    obtain ⟨e', there, _⟩ := grows.entry _ _ held
    rw [h] at there
    cases there

theorem locate_put_vacant (h : t.locate p = .ok (.vacant at_)) (entry : Entry) :
    (t.put at_ entry).locate p = .ok (.entry at_ entry) := by
  obtain ⟨admitted, start, hstart, way⟩ := locate_eq_ok.1 h
  obtain ⟨hne, free, found⟩ := walk_vacant way
  refine locate_eq_ok.2 ⟨admitted, start, ?_, found entry⟩
  unfold startOf? at hstart ⊢
  split
  · rename_i absolute
    rwa [if_pos absolute] at hstart
  · rename_i relative
    rw [if_neg relative] at hstart
    have home : t.home ≠ at_ := by
      intro same
      rw [same, free] at hstart
      cases hstart
    rw [home_put, get?_put_of_ne t home]
    exact hstart

theorem leads_of_fileTarget (target : t.fileTarget p = .ok at_) (content : ByteArray) :
    Leads (t.put at_ (.file content)) p at_ := by
  rcases fileTarget_eq_ok target with way | ⟨old, way⟩
  · exact ⟨_, locate_put_vacant way _⟩
  · exact Leads.mono (fileTarget_extends target content) ⟨_, way⟩

theorem locate_of_writeText {text : String} (h : t.writeText p text = .ok t') :
    ∃ at_, t'.locate p = .ok (.entry at_ (.file text.toUTF8)) := by
  obtain ⟨at_, target, rfl⟩ := writeText_eq_ok.1 h
  rcases fileTarget_eq_ok target with way | ⟨old, way⟩
  · exact ⟨at_, locate_put_vacant way _⟩
  · obtain ⟨e, way', kind⟩ := (fileTarget_extends target text.toUTF8).locate
      (fun _ _ same => same) rfl way
    obtain ⟨content, rfl⟩ := kind.file
    have held := (Tree.locate_file way').2.2
    rw [get?_put_self t (fileTarget_ne_nil target)] at held
    cases held
    exact ⟨at_, way'⟩

theorem put_within (target : t.fileTarget p = .ok at_) (content : ByteArray) :
    Within (· = at_) t (t.put at_ (.file content)) := by
  have grows := fileTarget_extends target content
  refine ⟨grows, fun other changed => ?_, fun h => h.put grows (h.name_of_fileTarget target)⟩
  by_contra elsewhere
  exact changed (get?_put_of_ne t elsewhere _)

theorem writeText_within {text : String} (write : t.writeText p text = .ok t') :
    Within (Leads t' p) t t' := by
  obtain ⟨at_, target, rfl⟩ := writeText_eq_ok.1 write
  refine (put_within target _).mono ?_
  rintro _ rfl
  exact leads_of_fileTarget target _

inductive Encloses (q : Path) : Path → Prop
  | self : Encloses q q
  | above {p above : Path} : parent? p = some above → Encloses q above → Encloses q p

/-- On the way along a path a directory has been made where nothing was. -/
structure MadeAlong (t t' : Tree) (p : Path) (at_ : Location) : Prop where
  free : t.get? at_ = none
  directory : t'.get? at_ = some .directory
  leads : ∃ q, Encloses q p ∧ Leads t' q at_

theorem MadeAlong.before (h : MadeAlong t' t'' p at_) (grows : Extends Entry.SameKind t t') :
    MadeAlong t t'' p at_ :=
  ⟨grows.get?_eq_none h.free, h.directory, h.leads⟩

theorem MadeAlong.later (h : MadeAlong t t' p at_) (grows : Extends Entry.SameKind t' t'') :
    MadeAlong t t'' p at_ := by
  obtain ⟨q, encloses, leads⟩ := h.leads
  obtain ⟨e, there, kind⟩ := grows.entry _ _ h.directory
  exact ⟨h.free, by rw [there, kind.directory], q, encloses, leads.mono grows⟩

theorem MadeAlong.below (h : MadeAlong t t' q at_) (parent : parent? p = some q) :
    MadeAlong t t' p at_ := by
  obtain ⟨above, encloses, leads⟩ := h.leads
  exact ⟨h.free, h.directory, above, .above parent encloses, leads⟩

theorem createDirectory_root (t : Tree) : t.createDirectory ⟨"/"⟩ = .error .alreadyExists := by rfl

theorem createDirectory_within (trimmed : endsWithSlash p = false ∨ p.text = "/")
    (h : t.createDirectory p = .ok t') : Within (MadeAlong t t' p) t t' := by
  have slash : endsWithSlash p = false := by
    rcases trimmed with slash | root
    · exact slash
    · obtain rfl : p = ⟨"/"⟩ := Path.eq_of_text root
      rw [createDirectory_root] at h
      cases h
  have grows := (createDirectory_extends h).sameKind
  obtain ⟨q, at_, way, rfl, same⟩ := createDirectory_eq_ok h
  obtain rfl := same slash
  obtain ⟨_, _, _, ahead⟩ := locate_eq_ok.1 way
  obtain ⟨hne, free, _⟩ := walk_vacant ahead
  refine ⟨grows, fun other changed => ?_, fun h => h.put grows (isName_of_vacant way)⟩
  have here : other = at_ := by
    by_contra elsewhere
    exact changed (get?_put_of_ne t elsewhere _)
  subst here
  exact ⟨free, get?_put_self t hne _, q, .self, _, locate_put_vacant way _⟩

theorem createDirectoriesFrom_within {fuel : Nat} {made : Except Fault Unit}
    (trimmed : endsWithSlash p = false ∨ p.text = "/")
    (h : createDirectoriesFrom fuel t p = (made, t')) : Within (MadeAlong t t' p) t t' := by
  induction fuel generalizing t p t' made with
  | zero =>
    cases h
    exact .refl _ t
  | succ fuel ih =>
    unfold createDirectoriesFrom at h
    split at h
    · cases h
      exact .refl _ t
    · split at h
      · rename_i own
        cases h
        exact createDirectory_within trimmed own
      · split at h
        · cases h
          exact .refl _ t
        · rename_i above parent
          have trimmed' := (isAbove_of_parent? parent).trimmed
          split at h
          · rename_i made
            cases h
            exact (ih trimmed' made).mono fun _ along => along.below parent
          · rename_i made
            have first := (ih trimmed' made).mono fun _ along => along.below parent
            split at h
            · rename_i own
              cases h
              have second := createDirectory_within trimmed own
              exact (first.mono fun _ along => along.later second.grows).trans
                (second.mono fun _ along => along.before first.grows)
            · split at h <;> cases h <;> exact first
      · split at h <;> cases h <;> exact .refl _ t

end Toolwright.Files.Tree
