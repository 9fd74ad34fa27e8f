import Toolwright.Proofs.Files.Walk

/-!
Reading, writing and making directories, told by paths. A file that can be read can be written, and
then it holds what was written. Writing next to a file leaves the file as it is. Making directories
adds directories and changes nothing else; a directory that was made is there for good, so making
it again changes nothing.
-/

namespace Toolwright.Files.Tree

def startOf? (t : Tree) (p : Path) : Option (Location × Entry) :=
  if p.isAbsolute then some ([], .directory) else (t.get? t.home).map (t.home, ·)

structure Admitted (p : Path) : Prop where
  nul : p.text.toList.contains '\x00' = false
  nonempty : p.text.isEmpty = false
  short : ¬ pathLimit < p.text.utf8ByteSize

theorem locate_eq_ok {t : Tree} {p : Path} {place : Place} :
    t.locate p = .ok place ↔ Admitted p ∧
      ∃ start, startOf? t p = some start ∧ t.walk start.1 start.2 (partsOf p) = .ok place := by
  constructor
  · intro way
    unfold locate at way
    split at way
    · cases way
    · rename_i nul
      split at way
      · cases way
      · rename_i nonempty
        split at way
        · cases way
        · rename_i short
          refine ⟨⟨by simpa using nul, by simpa using nonempty, short⟩, ?_⟩
          unfold startOf?
          split at way
          · rename_i absolute
            exact ⟨_, if_pos absolute, way⟩
          · rename_i relative
            rw [if_neg relative]
            cases home : t.get? t.home with
            | none =>
              rw [home] at way
              cases way
            | some entry =>
              rw [home] at way
              exact ⟨_, rfl, way⟩
  · rintro ⟨⟨nul, nonempty, short⟩, start, hstart, way⟩
    unfold locate
    rw [if_neg (by simpa using nul), if_neg (by simpa using nonempty), if_neg short]
    unfold startOf? at hstart
    split
    · rename_i absolute
      rw [if_pos absolute] at hstart
      cases hstart
      exact way
    · rename_i relative
      rw [if_neg relative] at hstart
      cases home : t.get? t.home with
      | none =>
        rw [home] at hstart
        cases hstart
      | some entry =>
        rw [home] at hstart
        cases hstart
        exact way

theorem partsOf_ne_nil (p : Path) : partsOf p ≠ [] := by
  simpa [partsOf] using Text.splitAt_ne_nil _ _

theorem Extends.locate {R : Entry → Entry → Prop} (hkind : ∀ e e', R e e' → e.SameKind e')
    (hdir : R .directory .directory) {t t' : Tree} (h : Extends R t t') {p : Path}
    {found : Location} {e : Entry} (way : t.locate p = .ok (.entry found e)) :
    ∃ e', t'.locate p = .ok (.entry found e') ∧ R e e' := by
  obtain ⟨admitted, start, hstart, way⟩ := locate_eq_ok.1 way
  have begins : ∃ entry, startOf? t' p = some (start.1, entry) ∧ R start.2 entry := by
    unfold startOf? at hstart ⊢
    split at hstart
    · rename_i absolute
      cases hstart
      exact ⟨_, if_pos absolute, hdir⟩
    · rename_i relative
      rw [if_neg relative, h.home]
      obtain ⟨home, hhome, rfl⟩ := Option.map_eq_some_iff.1 hstart
      obtain ⟨entry, hentry, related⟩ := h.entry _ _ hhome
      exact ⟨entry, by rw [hentry]; rfl, related⟩
  obtain ⟨entry, hentry, related⟩ := begins
  obtain ⟨e', way', last⟩ := h.walk hkind hdir related way
  exact ⟨e', locate_eq_ok.2 ⟨admitted, _, hentry, way'⟩, last⟩

theorem find_eq_ok {t : Tree} {p : Path} {at_ : Location} {e : Entry} :
    t.find p = .ok (at_, e) ↔ t.locate p = .ok (.entry at_ e) := by
  unfold find
  split <;> simp_all

theorem isDirectory_iff {t : Tree} {p : Path} :
    t.isDirectory p = true ↔ ∃ at_, t.locate p = .ok (.entry at_ .directory) := by
  simp only [← find_eq_ok]
  unfold isDirectory
  split <;> simp_all

theorem readText_eq_ok {t : Tree} {p : Path} {text : String} :
    t.readText p = .ok text ↔ ∃ at_, t.locate p = .ok (.entry at_ (.file text.toUTF8)) := by
  have read : t.read p = .ok text.toUTF8 ↔ ∃ at_, t.find p = .ok (at_, .file text.toUTF8) := by
    unfold Tree.read
    split <;> simp_all
  simp only [← find_eq_ok]
  rw [← read]
  unfold readText
  cases held : t.read p with
  | error fault => simp [bind, Except.bind]
  | ok content =>
    simp only [bind, Except.bind, Except.ok.injEq]
    unfold String.fromUTF8?
    by_cases valid : content.IsValidUTF8
    · rw [dif_pos valid]
      simp only [Except.ok.injEq]
      exact ⟨fun same => same ▸ rfl, fun same => by subst same; rfl⟩
    · rw [dif_neg valid]
      simp only [reduceCtorEq, false_iff]
      rintro rfl
      exact valid text.isValidUTF8

theorem Extends.isDirectory {t t' : Tree} (h : Extends Entry.SameKind t t') {p : Path}
    (there : t.isDirectory p = true) : t'.isDirectory p = true := by
  obtain ⟨at_, way⟩ := isDirectory_iff.1 there
  obtain ⟨e, way', kind⟩ := h.locate (fun _ _ same => same) rfl way
  obtain rfl := kind.directory
  exact isDirectory_iff.2 ⟨at_, way'⟩

theorem Extends.readText {t t' : Tree} (h : Extends Eq t t') {p : Path} {text : String}
    (read : t.readText p = .ok text) : t'.readText p = .ok text := by
  obtain ⟨at_, way⟩ := readText_eq_ok.1 read
  obtain ⟨e, way', rfl⟩ := h.locate (fun _ _ same => congrArg _ same) rfl way
  exact readText_eq_ok.2 ⟨at_, way'⟩

theorem partsOf_of_endsWithSlash {p : Path} (h : endsWithSlash p = true) :
    ∃ before, partsOf p = before ++ [.stay] := by
  have last : p.text.toList.getLast? = some '/' := by simpa [endsWithSlash] using h
  obtain ⟨front, hfront⟩ := List.getLast?_eq_some_iff.1 last
  obtain ⟨before, piece, first, more, _, slash, both⟩ :=
    Text.splitAt_append (· == '/') front ['/']
  obtain ⟨rfl, rfl⟩ : [] = first ∧ [[]] = more := by simpa [Text.splitAt] using slash
  refine ⟨before.map partOf ++ [partOf piece], ?_⟩
  simp [partsOf, hfront, both, partOf]

theorem locate_file {t : Tree} {p : Path} {found : Location} {content : ByteArray}
    (way : t.locate p = .ok (.entry found (.file content))) :
    endsWithSlash p = false ∧ found ≠ [] ∧ t.get? found = some (.file content) := by
  obtain ⟨_, start, _, way⟩ := locate_eq_ok.1 way
  obtain ⟨before, name, above, parts, _, rfl, held⟩ := walk_file (partsOf_ne_nil p) way
  refine ⟨?_, by simp, held⟩
  cases slash : endsWithSlash p with
  | false => rfl
  | true =>
    obtain ⟨others, stays⟩ := partsOf_of_endsWithSlash slash
    rw [stays] at parts
    have same := (List.append_inj' parts rfl).2
    cases same

theorem fileTarget_file {t : Tree} {p : Path} {found : Location} {content : ByteArray}
    (way : t.locate p = .ok (.entry found (.file content))) : t.fileTarget p = .ok found := by
  obtain ⟨slash, _, _⟩ := locate_file way
  simp [fileTarget, slash, way]

theorem fileTarget_eq_ok {t : Tree} {p : Path} {at_ : Location} (h : t.fileTarget p = .ok at_) :
    t.locate p = .ok (.vacant at_) ∨ ∃ old, t.locate p = .ok (.entry at_ (.file old)) := by
  unfold fileTarget at h
  cases slash : endsWithSlash p with
  | true =>
    simp only [slash, if_true] at h
    split at h <;> cases h
  | false =>
    simp only [slash, Bool.false_eq_true, if_false] at h
    split at h
    · cases h
      rename_i way
      exact .inr ⟨_, way⟩
    · cases h
    · cases h
      rename_i way
      exact .inl way
    · cases h

theorem writeText_eq_ok {t t' : Tree} {p : Path} {text : String} :
    t.writeText p text = .ok t' ↔
      ∃ at_, t.fileTarget p = .ok at_ ∧ t' = t.put at_ (.file text.toUTF8) := by
  unfold writeText write
  cases t.fileTarget p with
  | error fault => simp [bind, Except.bind]
  | ok at_ => simp [bind, Except.bind, eq_comm]

theorem writeText_eq_error {t : Tree} {p : Path} {text : String} {fault : Fault} :
    t.writeText p text = .error fault ↔ t.fileTarget p = .error fault := by
  unfold writeText write
  cases t.fileTarget p <;> simp [bind, Except.bind]

theorem fileTarget_extends {t : Tree} {p : Path} {at_ : Location} (h : t.fileTarget p = .ok at_)
    (content : ByteArray) : Extends Entry.SameKind t (t.put at_ (.file content)) := by
  rcases fileTarget_eq_ok h with way | ⟨old, way⟩
  · obtain ⟨_, _, _, way⟩ := locate_eq_ok.1 way
    obtain ⟨hne, free, _⟩ := walk_vacant way
    refine Extends.put (R := Entry.SameKind) (fun _ => rfl) hne fun e held => ?_
    rw [free] at held
    cases held
  · obtain ⟨_, hne, held⟩ := locate_file way
    refine Extends.put (R := Entry.SameKind) (fun _ => rfl) hne fun e here => ?_
    rw [held] at here
    cases here
    rfl

theorem writeText_extends {t t' : Tree} {p : Path} {text : String}
    (h : t.writeText p text = .ok t') :
    Extends Entry.SameKind t t' := by
  obtain ⟨at_, target, rfl⟩ := writeText_eq_ok.1 h
  exact fileTarget_extends target _

theorem readText_put {t : Tree} {p : Path} {found at_ : Location} {text : String} {entry : Entry}
    (way : t.locate p = .ok (.entry found (.file text.toUTF8))) (hne : found ≠ at_)
    (h : Extends Entry.SameKind t (t.put at_ entry)) : (t.put at_ entry).readText p = .ok text := by
  obtain ⟨e, way', kind⟩ := h.locate (fun _ _ same => same) rfl way
  obtain ⟨content, rfl⟩ := kind.file
  obtain ⟨_, _, held⟩ := locate_file way
  obtain ⟨_, _, held'⟩ := locate_file way'
  rw [get?_put_of_ne t hne, held] at held'
  cases held'
  exact readText_eq_ok.2 ⟨found, way'⟩

theorem writeText_of_readText {t : Tree} {p : Path} {old : String} (h : t.readText p = .ok old)
    (text : String) : ∃ t', t.writeText p text = .ok t' ∧ t'.readText p = .ok text := by
  obtain ⟨found, way⟩ := readText_eq_ok.1 h
  have target := fileTarget_file way
  refine ⟨_, writeText_eq_ok.2 ⟨found, target, rfl⟩, ?_⟩
  obtain ⟨e, way', kind⟩ := (fileTarget_extends target text.toUTF8).locate
    (fun _ _ same => same) rfl way
  obtain ⟨content, rfl⟩ := kind.file
  obtain ⟨_, hne, held⟩ := locate_file way'
  rw [get?_put_self t hne] at held
  cases held
  exact readText_eq_ok.2 ⟨found, way'⟩

theorem partOf_append {part suffix : List Char} {name : String} (h : partOf part = .name name)
    (hne : suffix ≠ []) : ∃ longer, partOf (part ++ suffix) = .name longer ∧ longer ≠ name := by
  unfold partOf at h
  split at h
  · cases h
  · rename_i visible
    split at h
    · cases h
    · cases h
      rw [not_or] at visible
      cases part with
      | nil => exact absurd rfl visible.1
      | cons c rest =>
        cases suffix with
        | nil => exact absurd rfl hne
        | cons d more =>
          refine ⟨String.ofList (c :: rest ++ d :: more), ?_, fun same => ?_⟩
          · cases rest with
            | nil =>
              have dot : c ≠ '.' := fun dot => visible.2 (by rw [dot])
              simp [partOf, dot]
            | cons e rest => simp [partOf]
          · have lengths := congrArg List.length (String.ofList_injective same)
            simp at lengths

theorem walk_name {t : Tree} {above : Location} {name : String} {place : Place}
    (way : t.walk above .directory [.name name] = .ok place) :
    place = .vacant (above ++ [name]) ∨ ∃ e, place = .entry (above ++ [name]) e := by
  simp only [walk] at way
  split at way
  · cases way
  · split at way
    · cases way
      exact .inr ⟨_, rfl⟩
    · cases way
      exact .inl rfl
    · cases way

theorem fileTarget_extend {t : Tree} {p : Path} {found at_ : Location} {content : ByteArray}
    {suffix : String} (way : t.locate p = .ok (.entry found (.file content)))
    (hne : suffix.toList ≠ []) (plain : suffix.toList.any (· == '/') = false)
    (target : t.fileTarget (p.extend suffix) = .ok at_) : found ≠ at_ := by
  obtain ⟨admitted, start, hstart, way⟩ := locate_eq_ok.1 way
  obtain ⟨before, name, above, parts, ahead, rfl, _⟩ := walk_file (partsOf_ne_nil p) way
  obtain ⟨pieces, last, first, more, whole, tail, both⟩ :=
    Text.splitAt_append (· == '/') p.text.toList suffix.toList
  have apart : ∀ c ∈ suffix.toList, (c == '/') = false := fun c hc =>
    Bool.eq_false_iff.2 (List.any_eq_false.1 plain c hc)
  rw [Text.splitAt_eq_splitOnP _ suffix.toList, List.splitOnP_eq_singleton apart] at tail
  obtain ⟨rfl, rfl⟩ : suffix.toList = first ∧ [] = more := by simpa using tail
  rw [partsOf, whole, List.map_append] at parts
  obtain ⟨rfl, ends⟩ := List.append_inj' parts rfl
  obtain ⟨longer, named, other⟩ := partOf_append (by simpa using ends) hne
  -- the suffix makes the last name longer and leaves the directory as it is
  have parts' : partsOf (p.extend suffix) = pieces.map partOf ++ [.name longer] := by
    rw [partsOf, Path.extend, String.toList_append, both, List.map_append,
      List.map_singleton, named]
  have absolute : (p.extend suffix).isAbsolute = p.isAbsolute := by
    cases text : p.text.toList with
    | nil =>
      have nonempty := admitted.nonempty
      simp [String.toList_eq_nil_iff.1 text] at nonempty
    | cons c rest => simp [Path.isAbsolute, Path.extend, text]
  have somewhere : ∀ place, t.locate (p.extend suffix) = .ok place →
      place = .vacant (above ++ [longer]) ∨ ∃ e, place = .entry (above ++ [longer]) e := by
    intro place way'
    obtain ⟨_, start', hstart', way'⟩ := locate_eq_ok.1 way'
    rw [startOf?, absolute, ← startOf?, hstart] at hstart'
    cases hstart'
    rw [parts', walk_append ahead] at way'
    exact walk_name way'
  have at_eq : at_ = above ++ [longer] := by
    rcases fileTarget_eq_ok target with way' | ⟨old, way'⟩
    · rcases somewhere _ way' with same | ⟨e, same⟩ <;> cases same
      rfl
    · rcases somewhere _ way' with same | ⟨e, same⟩ <;> cases same
      rfl
  rw [at_eq]
  intro same
  exact other (by simpa using same.symm)

theorem readText_of_writeText_extend {t t' : Tree} {p : Path} {suffix text fresh : String}
    (read : t.readText p = .ok text) (hne : suffix.toList ≠ [])
    (plain : suffix.toList.any (· == '/') = false)
    (write : t.writeText (p.extend suffix) fresh = .ok t') : t'.readText p = .ok text := by
  obtain ⟨found, way⟩ := readText_eq_ok.1 read
  obtain ⟨at_, target, rfl⟩ := writeText_eq_ok.1 write
  exact readText_put way (fileTarget_extend way hne plain target) (fileTarget_extends target _)

end Toolwright.Files.Tree
