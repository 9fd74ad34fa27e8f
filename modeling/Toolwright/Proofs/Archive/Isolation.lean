import Toolwright.Archive.Synchronizer
import Toolwright.Proofs.Files.Beside

/-!
References do not get into each other's way. The archives of a tool are different names of one
directory, so writing one leaves all others, and whether they can be written, as they are. What
becomes of a reference is therefore told by the files there were at first, whichever references
were archived before it.
-/

namespace Toolwright

open Files (Tree Location)
open Files.Tree (EndsWith)

theorem Tool.eq_of_threeDigits_eq {m n : Nat} (h : threeDigits m = threeDigits n) : m = n := by
  have value : ∀ k, Nat.ofDigitChars 10 (threeDigits k).toList 0 = k := by
    intro k
    simp [threeDigits, Nat.ofDigitChars_append, Nat.ofDigitChars_ten_toDigits]
  rw [← value m, ← value n, h]

def Tool.archiveSuffix (index : Nat) : List Char :=
  (".ref." ++ threeDigits index ++ ".txt").toList

theorem Tool.eq_of_archiveSuffix_eq {m n : Nat} (h : archiveSuffix m = archiveSuffix n) :
    m = n := by
  refine eq_of_threeDigits_eq (String.toList_inj.1 ?_)
  simpa [archiveSuffix] using h

theorem Tool.archiveSuffix_plain (index : Nat) : ∀ c ∈ archiveSuffix index, (c == '/') = false := by
  intro c hc
  refine beq_eq_false_iff_ne.2 ?_
  rintro rfl
  simp only [archiveSuffix, threeDigits, String.toList_append, List.mem_append,
    String.toList_ofList, List.mem_replicate] at hc
  rcases hc with (hc | ⟨_, zero⟩ | hc) | hc
  · exact absurd hc (by decide)
  · exact absurd zero (by decide)
  · have digit : '/' ∈ Nat.toDigits 10 index := by simpa using hc
    exact absurd (Nat.isDigit_of_mem_toDigits (by omega) (by omega) digit) (by decide)
  · exact absurd hc (by decide)

theorem Tool.referencePath_endsWith (tool : Tool) : ∃ absolute before, ∃ name : Nat → String,
    (∀ i, EndsWith (tool.referencePath i) absolute before (name i)) ∧
      ∀ i j, name i = name j → i = j := by
  obtain ⟨parts, last, _, _, whole, _, _⟩ :=
    Text.splitAt_append (· == '/') tool.generationBase.text.toList []
  refine ⟨(tool.referencePath 0).isAbsolute, parts.map Files.Tree.partOf,
    fun i => String.ofList (last ++ archiveSuffix i), fun i => ⟨?_, ?_⟩, fun i j same => ?_⟩
  · cases base : tool.generationBase.text.toList <;>
      simp [referencePath, outputPath, Path.extend, Path.isAbsolute, base]
  · obtain ⟨parts', last', first, more, whole', suffix, both⟩ :=
      Text.splitAt_append (· == '/') tool.generationBase.text.toList (archiveSuffix i)
    rw [Text.splitAt_eq_splitOnP, List.splitOnP_eq_singleton (archiveSuffix_plain i)] at suffix
    obtain ⟨rfl, rfl⟩ : archiveSuffix i = first ∧ [] = more := by simpa using suffix
    obtain ⟨rfl, same⟩ := List.append_inj' (whole.symm.trans whole') rfl
    obtain rfl : last = last' := by simpa using same
    have named : Files.Tree.partOf (last ++ archiveSuffix i) =
        .name (String.ofList (last ++ archiveSuffix i)) := by
      have long : 2 < (last ++ archiveSuffix i).length := by simp [archiveSuffix]; omega
      unfold Files.Tree.partOf
      rw [if_neg, if_neg]
      · intro dots
        simp [dots] at long
      · rintro (none | dot)
        · simp [none] at long
        · simp [dot] at long
    have text : (tool.referencePath i).text.toList =
        tool.generationBase.text.toList ++ archiveSuffix i := by
      simp [referencePath, outputPath, Path.extend, archiveSuffix]
    rw [Files.Tree.partsOf, text, both, List.map_append, List.map_singleton, named]
  · have lists := String.ofList_injective same
    exact eq_of_archiveSuffix_eq (List.append_cancel_left lists)

theorem Tool.endsWithSlash_referencePath (tool : Tool) (i : Nat) :
    Files.Tree.endsWithSlash (tool.referencePath i) = false := by
  obtain ⟨_, _, _, ends, _⟩ := tool.referencePath_endsWith
  exact Files.Tree.endsWithSlash_of_parts (ends i).parts

namespace Synchronizer

variable {s : Synchronizer} {tool : Tool} {t t₁ : Tree}

theorem textFor_steady (steady : s.fetcher.IsSteady) (t t' : Tree) (r : Reference) :
    s.textFor t r = s.textFor t' r := by
  simp only [textFor, fetch, steady t t' r.url]

theorem archiveOne_eq (s : Synchronizer) (tool : Tool) (t : Tree) (i : Nat) (r : Reference) :
    s.archiveOne tool t i r =
      match s.textFor t r, t.fileTarget (tool.referencePath i) with
      | .error f, _ =>
        (⟨i, r, tool.referencePath i, .failed (.reference i tool.definitionFileName f)⟩, t)
      | .ok _, .error fault =>
        (⟨i, r, tool.referencePath i,
          .failed (.reference i tool.definitionFileName (.io (.fault fault)))⟩, t)
      | .ok text, .ok at_ =>
        (⟨i, r, tool.referencePath i, .archived text.utf8ByteSize⟩,
          t.put at_ (.file text.toUTF8)) := by
  simp only [archiveOne, archive, Files.Tree.writeText, Files.Tree.write]
  cases s.textFor t r with
  | error f => rfl
  | ok text => cases t.fileTarget (tool.referencePath i) <;> rfl

/-- The reference of an index has a text, and this is where it goes. -/
def Archives (s : Synchronizer) (tool : Tool) (t : Tree) (i : Nat) (text : String)
    (at_ : Location) : Prop :=
  ∃ r, tool.references[i]? = some r ∧ s.textFor t r = .ok text ∧
    t.fileTarget (tool.referencePath i) = .ok at_

theorem Archives.target {i : Nat} {text : String} {at_ : Location}
    (h : s.Archives tool t i text at_) : t.fileTarget (tool.referencePath i) = .ok at_ := by
  obtain ⟨_, _, _, target⟩ := h
  exact target

theorem Archives.unique {i : Nat} {text text' : String} {at_ at' : Location}
    (h : s.Archives tool t i text at_) (h' : s.Archives tool t i text' at') :
    text = text' ∧ at_ = at' := by
  obtain ⟨r, held, hasText, target⟩ := h
  obtain ⟨r', held', hasText', target'⟩ := h'
  cases held.symm.trans held'
  cases hasText.symm.trans hasText'
  cases target.symm.trans target'
  exact ⟨rfl, rfl⟩

theorem Archives.index_eq {i j : Nat} {text text' : String} {at_ : Location}
    (h : s.Archives tool t i text at_) (h' : s.Archives tool t j text' at_) : i = j := by
  obtain ⟨_, _, _, ends, apart⟩ := tool.referencePath_endsWith
  exact apart i j (Files.Tree.name_eq_of_fileTarget (ends i) (ends j) h.target h'.target)

/-- `t'` are the files `t` after some references have been dealt with: the archived ones hold their
texts, and nothing else has changed. -/
structure After (s : Synchronizer) (tool : Tool) (done : Nat → Prop) (t t' : Tree) : Prop where
  home : t'.home = t.home
  targets : ∀ i, t'.fileTarget (tool.referencePath i) = t.fileTarget (tool.referencePath i)
  written : ∀ i text at_, done i → s.Archives tool t i text at_ →
    t'.get? at_ = some (.file text.toUTF8)
  kept : ∀ at_, (∀ i text, done i → ¬ s.Archives tool t i text at_) → t'.get? at_ = t.get? at_

theorem After.start (s : Synchronizer) (tool : Tool) (t : Tree) :
    After s tool (fun _ => False) t t :=
  ⟨rfl, fun _ => rfl, fun _ _ _ never => never.elim, fun _ _ => rfl⟩

theorem After.congr {done done' : Nat → Prop} (h : After s tool done t t₁)
    (same : ∀ i, done i ↔ done' i) : After s tool done' t t₁ := by
  obtain rfl : done = done' := funext fun i => propext (same i)
  exact h

theorem After.skip {done : Nat → Prop} {i : Nat} (h : After s tool done t t₁)
    (none : ∀ text at_, ¬ s.Archives tool t i text at_) :
    After s tool (fun j => j = i ∨ done j) t t₁ := by
  refine ⟨h.home, h.targets, ?_, fun at_ free => h.kept at_ fun j text hj => free j text (.inr hj)⟩
  rintro j text at_ (rfl | hj) archives
  · exact absurd archives (none text at_)
  · exact h.written j text at_ hj archives

theorem After.write {done : Nat → Prop} {i : Nat} {text : String} {at_ : Location}
    (h : After s tool done t t₁) (archives : s.Archives tool t i text at_) :
    After s tool (fun j => j = i ∨ done j) t (t₁.put at_ (.file text.toUTF8)) := by
  have target₁ : t₁.fileTarget (tool.referencePath i) = .ok at_ :=
    (h.targets i).trans archives.target
  obtain ⟨_, _, _, ends, _⟩ := tool.referencePath_endsWith
  refine ⟨h.home, fun j => ?_, ?_, fun other free => ?_⟩
  · rw [Files.Tree.fileTarget_put (ends j) (ends i) target₁, h.targets j]
  · rintro j text' at' (rfl | hj) archives'
    · obtain ⟨rfl, rfl⟩ := archives.unique archives'
      exact Files.Tree.get?_put_self _ (Files.Tree.fileTarget_ne_nil target₁) _
    · by_cases same : at' = at_
      · subst same
        obtain rfl := archives'.index_eq archives
        obtain ⟨rfl, _⟩ := archives'.unique archives
        exact Files.Tree.get?_put_self _ (Files.Tree.fileTarget_ne_nil target₁) _
      · rw [Files.Tree.get?_put_of_ne _ same]
        exact h.written j text' at' hj archives'
  · have elsewhere : other ≠ at_ := by
      rintro rfl
      exact free i text (.inl rfl) archives
    rw [Files.Tree.get?_put_of_ne _ elsewhere]
    exact h.kept other fun j text' hj => free j text' (.inr hj)

theorem After.get?_eq {done : Nat → Prop} {t₂ : Tree} (h₁ : After s tool done t t₁)
    (h₂ : After s tool done t t₂) (at_ : Location) : t₁.get? at_ = t₂.get? at_ := by
  by_cases some_ : ∃ i text, done i ∧ s.Archives tool t i text at_
  · obtain ⟨i, text, hi, archives⟩ := some_
    rw [h₁.written i text at_ hi archives, h₂.written i text at_ hi archives]
  · have free : ∀ i text, done i → ¬ s.Archives tool t i text at_ :=
      fun i text hi archives => some_ ⟨i, text, hi, archives⟩
    rw [h₁.kept at_ free, h₂.kept at_ free]

theorem After.archiveOne {done : Nat → Prop} {i : Nat} {r : Reference}
    (steady : s.fetcher.IsSteady) (h : After s tool done t t₁)
    (held : tool.references[i]? = some r) :
    (s.archiveOne tool t₁ i r).1 = (s.archiveOne tool t i r).1 ∧
      After s tool (fun j => j = i ∨ done j) t (s.archiveOne tool t₁ i r).2 := by
  simp only [archiveOne_eq, textFor_steady steady t₁ t r, h.targets i]
  cases hasText : s.textFor t r with
  | error f =>
    refine ⟨rfl, h.skip ?_⟩
    rintro text at_ ⟨r', held', hasText', _⟩
    cases held.symm.trans held'
    cases hasText.symm.trans hasText'
  | ok text =>
    cases target : t.fileTarget (tool.referencePath i) with
    | error fault =>
      refine ⟨rfl, h.skip ?_⟩
      rintro text' at_ ⟨_, _, _, target'⟩
      cases target.symm.trans target'
    | ok at_ => exact ⟨rfl, h.write ⟨r, held, hasText, target⟩⟩

theorem archiveFrom_cons (s : Synchronizer) (tool : Tool) (t : Tree) (n : Nat) (r : Reference)
    (rest : List Reference) :
    s.archiveFrom tool t n (r :: rest) =
      ((s.archiveOne tool t n r).1 ::
          (s.archiveFrom tool (s.archiveOne tool t n r).2 (n + 1) rest).1,
        (s.archiveFrom tool (s.archiveOne tool t n r).2 (n + 1) rest).2) := rfl

theorem archiveFrom_after (steady : s.fetcher.IsSteady) {refs : List Reference} {n : Nat}
    (h : After s tool (· < n) t t₁) (rest : tool.references.drop n = refs) :
    (s.archiveFrom tool t₁ n refs).1 =
        refs.mapIdx (fun k r => (s.archiveOne tool t (n + k) r).1) ∧
      After s tool (· < n + refs.length) t (s.archiveFrom tool t₁ n refs).2 := by
  induction refs generalizing n t₁ with
  | nil => exact ⟨rfl, h⟩
  | cons r refs ih =>
    have held : tool.references[n]? = some r := by
      have first := congrArg (·[0]?) rest
      simpa using first
    have behind : tool.references.drop (n + 1) = refs := by
      rw [← List.tail_drop, rest, List.tail_cons]
    obtain ⟨outcome, after⟩ := h.archiveOne steady held
    obtain ⟨outcomes, last⟩ := ih (after.congr fun j => by omega) behind
    have shift : ∀ k, n + 1 + k = n + (k + 1) := fun k => by omega
    constructor
    · rw [archiveFrom_cons, List.mapIdx_cons, outcome, outcomes]
      simp only [shift, Nat.add_zero]
    · rw [archiveFrom_cons]
      exact last.congr fun j => by simp only [List.length_cons]; omega

theorem synchronize_after (steady : s.fetcher.IsSteady) (tool : Tool) (t : Tree) :
    (s.synchronize tool t).1 =
        tool.references.mapIdx (fun i r => (s.archiveOne tool t i r).1) ∧
      After s tool (· < tool.references.length) t (s.synchronize tool t).2 := by
  obtain ⟨outcomes, after⟩ := archiveFrom_after (n := 0) steady
    ((After.start s tool t).congr fun j => by simp) rfl
  simp only [Nat.zero_add] at outcomes after
  exact ⟨outcomes, after⟩

end Synchronizer

namespace Reference

theorem cut_append {url : List Char} (h : '#' ∉ url) (rest : List Char) :
    (url ++ rest).takeWhile (· != '#') = url ++ rest.takeWhile (· != '#') ∧
      (url ++ rest).dropWhile (· != '#') = rest.dropWhile (· != '#') := by
  have apart : ∀ c ∈ url, (c != '#') = true := by
    intro c hc
    have other : c ≠ '#' := fun same => h (same ▸ hc)
    simpa using other
  exact ⟨List.takeWhile_append_of_pos apart, List.dropWhile_append_of_pos apart⟩

theorem address_whole {url : List Char} (h : '#' ∉ url) :
    address url = url ∧ fragment? url = none := by
  obtain ⟨before, behind⟩ := cut_append h []
  rw [List.append_nil] at before behind
  exact ⟨by rw [address, before]; simp, by rw [fragment?, behind]; rfl⟩

theorem address_cut {url : List Char} (h : '#' ∉ url) (selector : List Char) :
    address (url ++ '#' :: selector) = url ∧
      fragment? (url ++ '#' :: selector) = some selector := by
  obtain ⟨before, behind⟩ := cut_append h ('#' :: selector)
  exact ⟨by rw [address, before]; simp, by rw [fragment?, behind]; simp⟩

end Reference

namespace Synchronizer

variable {s : Synchronizer} {t : Tree}

/-- What a reference asks for: the document at the address before the first `#`, or what the
selector behind it finds there. -/
def Delivers (f : Fetcher) (t : Tree) (r : Reference) (text : String) : Prop :=
  ∃ url content, '#' ∉ url ∧ f.answer t (String.ofList url) = .document content ∧
    ((r.text.toList = url ∧ text = Text.decodeLossy content.toList) ∨
      ∃ selector, r.text.toList = url ++ '#' :: selector ∧
        Selector.extract (Text.decodeLossy content.toList).toList selector = .ok text)

theorem fetch_eq_ok {url document : String} :
    s.fetch t url = .ok document ↔
      ∃ content, s.fetcher.answer t url = .document content ∧
        document = Text.decodeLossy content.toList := by
  unfold fetch
  cases s.fetcher.answer t url <;> simp [eq_comm]

theorem select_eq_ok {selector document text : String} :
    select (some selector) document = .ok text ↔
      Selector.extract document.toList selector.toList = .ok text := by
  simp only [select]
  cases Selector.extract document.toList selector.toList <;> simp

theorem textFor_eq_ok {r : Reference} {text : String} :
    s.textFor t r = .ok text ↔ Delivers s.fetcher t r text := by
  have parts : s.textFor t r = .ok text ↔ ∃ document, s.fetch t r.url = .ok document ∧
      select r.selector? document = .ok text := by
    unfold textFor
    cases s.fetch t r.url <;> simp [bind, Except.bind]
  rw [parts]
  constructor
  · rintro ⟨_, fetched, selected⟩
    obtain ⟨content, answered, rfl⟩ := fetch_eq_ok.1 fetched
    by_cases cut : '#' ∈ r.text.toList
    · obtain ⟨url, selector, whole, apart⟩ := List.eq_append_cons_of_mem cut
      obtain ⟨first, behind⟩ := Reference.address_cut apart selector
      rw [Reference.url, whole, first] at answered
      rw [Reference.selector?, whole, behind] at selected
      refine ⟨url, content, apart, answered, .inr ⟨selector, whole, ?_⟩⟩
      simpa using select_eq_ok.1 selected
    · obtain ⟨first, behind⟩ := Reference.address_whole cut
      rw [Reference.url, first] at answered
      rw [Reference.selector?, behind] at selected
      cases selected
      exact ⟨_, content, cut, answered, .inl ⟨rfl, rfl⟩⟩
  · rintro ⟨url, content, apart, answered, ⟨whole, rfl⟩ | ⟨selector, whole, found⟩⟩
    · obtain ⟨first, behind⟩ := Reference.address_whole apart
      refine ⟨_, fetch_eq_ok.2 ⟨content, ?_, rfl⟩, ?_⟩
      · rw [Reference.url, whole, first, answered]
      · rw [Reference.selector?, whole, behind]
        rfl
    · obtain ⟨first, behind⟩ := Reference.address_cut apart selector
      refine ⟨_, fetch_eq_ok.2 ⟨content, ?_, rfl⟩, ?_⟩
      · rw [Reference.url, whole, first, answered]
      · rw [Reference.selector?, whole, behind]
        exact select_eq_ok.2 (by simpa using found)

def Writable (t : Tree) (p : Path) : Prop := ∃ at_, t.fileTarget p = .ok at_

section

variable {tool : Tool} {t₁ t₂ : Tree} {done done' : Nat → Prop}

theorem After.kept_target {i : Nat} {at_ : Location} (h : After s tool done t t₁)
    (target : t.fileTarget (tool.referencePath i) = .ok at_)
    (none : ∀ text, done i → ¬ s.Archives tool t i text at_) : t₁.get? at_ = t.get? at_ := by
  refine h.kept at_ fun j text hj archives => ?_
  obtain ⟨_, _, _, ends, apart⟩ := tool.referencePath_endsWith
  have same : i = j :=
    apart i j (Files.Tree.name_eq_of_fileTarget (ends i) (ends j) target archives.target)
  subst same
  exact none text hj archives

theorem After.read_eq {i : Nat} (h₁ : After s tool done t t₁) (h₂ : After s tool done' t t₂)
    (same : done i ↔ done' i) :
    t₁.read (tool.referencePath i) = t₂.read (tool.referencePath i) := by
  have plain := tool.endsWithSlash_referencePath i
  rw [Files.Tree.read_eq plain, Files.Tree.read_eq plain, h₁.targets, h₂.targets]
  cases target : t.fileTarget (tool.referencePath i) with
  | error fault => rfl
  | ok at_ =>
    have held : t₁.get? at_ = t₂.get? at_ := by
      by_cases some_ : ∃ text, done i ∧ s.Archives tool t i text at_
      · obtain ⟨text, hi, archives⟩ := some_
        rw [h₁.written i text at_ hi archives, h₂.written i text at_ (same.1 hi) archives]
      · rw [h₁.kept_target target fun text hi archives => some_ ⟨text, hi, archives⟩,
          h₂.kept_target target fun text hi archives => some_ ⟨text, same.2 hi, archives⟩]
    simp only [held]

end

section All

variable (steady : s.fetcher.IsSteady) (tool : Tool) (t : Tree)

include steady

theorem getElem?_synchronize (i : Nat) :
    (s.synchronize tool t).1[i]? =
      tool.references[i]?.map fun r => (s.archiveOne tool t i r).1 := by
  rw [(synchronize_after steady tool t).1, List.getElem?_mapIdx]

theorem read_synchronize {i : Nat} {r : Reference} (held : tool.references[i]? = some r) :
    (s.synchronize tool t).2.read (tool.referencePath i) =
      (s.archiveOne tool t i r).2.read (tool.referencePath i) := by
  have bound : i < tool.references.length := (List.getElem?_eq_some_iff.1 held).1
  have alone := ((After.start s tool t).archiveOne steady held).2
  exact (synchronize_after steady tool t).2.read_eq alone (by simpa using bound)

theorem read_synchronize_of_none {i : Nat} (none : tool.references[i]? = none) :
    (s.synchronize tool t).2.read (tool.referencePath i) = t.read (tool.referencePath i) := by
  have bound : tool.references.length ≤ i := by simpa using none
  exact (synchronize_after steady tool t).2.read_eq (After.start s tool t) (by simpa using bound)

end All

/-- One reference by itself: it is archived exactly when there is a text for it and its path can
be written, and then its file holds that text; else the failure names the reference and the
description, and its file is left as it was. -/
theorem archiveOne_cases (s : Synchronizer) (tool : Tool) (t : Tree) (i : Nat) (r : Reference) :
    ∃ status, (s.archiveOne tool t i r).1 = ⟨i, r, tool.referencePath i, status⟩ ∧
      ((∃ text, Delivers s.fetcher t r text ∧ Writable t (tool.referencePath i) ∧
          status = .archived text.utf8ByteSize ∧
          (s.archiveOne tool t i r).2.read (tool.referencePath i) = .ok text.toUTF8) ∨
        ((¬ ∃ text, Delivers s.fetcher t r text ∧ Writable t (tool.referencePath i)) ∧
          (∃ f reason, status = .failed f ∧ f.message = "Couldn't update reference #" ++
            toString i ++ " for " ++ tool.definitionFileName ++ ": " ++ reason) ∧
          (s.archiveOne tool t i r).2 = t)) := by
  rw [archiveOne_eq]
  cases hasText : s.textFor t r with
  | error f =>
    refine ⟨_, rfl, .inr ⟨?_, ⟨_, f.message, rfl, rfl⟩, rfl⟩⟩
    rintro ⟨text, delivers, _⟩
    cases hasText.symm.trans (textFor_eq_ok.2 delivers)
  | ok text =>
    cases target : t.fileTarget (tool.referencePath i) with
    | error fault =>
      refine ⟨_, rfl, .inr ⟨?_, ⟨_, (Failure.io (.fault fault)).message, rfl, rfl⟩, rfl⟩⟩
      rintro ⟨_, _, at_, target'⟩
      cases target.symm.trans target'
    | ok at_ =>
      refine ⟨_, rfl, .inl ⟨text, textFor_eq_ok.1 hasText, ⟨at_, target⟩, rfl, ?_⟩⟩
      obtain ⟨_, _, _, ends, _⟩ := tool.referencePath_endsWith
      rw [Files.Tree.read_eq (tool.endsWithSlash_referencePath i),
        Files.Tree.fileTarget_put (ends i) (ends i) target, target]
      simp only [Files.Tree.get?_put_self _ (Files.Tree.fileTarget_ne_nil target)]

/-- References are isolated. There is one outcome for each, and it is decided by that reference
alone; a reference is archived exactly when its document is fetched in time, its selector finds
something there and its path can be written. No file changes but the archives of such references,
and replacing other references changes neither the outcome of a reference nor its archive. -/
theorem synchronize_isolated (steady : s.fetcher.IsSteady) (tool : Tool) (t : Tree) :
    (s.synchronize tool t).1.length = tool.references.length ∧
    (∀ i r, tool.references[i]? = some r → ∃ status,
      (s.synchronize tool t).1[i]? = some ⟨i, r, tool.referencePath i, status⟩ ∧
      ((∃ text, Delivers s.fetcher t r text ∧ Writable t (tool.referencePath i) ∧
          status = .archived text.utf8ByteSize ∧
          (s.synchronize tool t).2.read (tool.referencePath i) = .ok text.toUTF8) ∨
        ((¬ ∃ text, Delivers s.fetcher t r text ∧ Writable t (tool.referencePath i)) ∧
          (∃ f reason, status = .failed f ∧ f.message = "Couldn't update reference #" ++
            toString i ++ " for " ++ tool.definitionFileName ++ ": " ++ reason) ∧
          (s.synchronize tool t).2.read (tool.referencePath i) =
            t.read (tool.referencePath i)))) ∧
    (∀ at_, (s.synchronize tool t).2.get? at_ ≠ t.get? at_ →
      ∃ i r text, tool.references[i]? = some r ∧ Delivers s.fetcher t r text ∧
        t.fileTarget (tool.referencePath i) = .ok at_) ∧
    (∀ others i, others[i]? = tool.references[i]? →
      (s.synchronize { tool with references := others } t).1[i]? = (s.synchronize tool t).1[i]? ∧
      (s.synchronize { tool with references := others } t).2.read (tool.referencePath i) =
        (s.synchronize tool t).2.read (tool.referencePath i)) := by
  -- each part is about one reference, told by its index, or about one place
  refine ⟨?_, fun i r held => ?_, fun at_ changed => ?_, fun others i same => ?_⟩
  · rw [(synchronize_after steady tool t).1, List.length_mapIdx]
  · obtain ⟨status, outcome, result⟩ := s.archiveOne_cases tool t i r
    refine ⟨status, by rw [getElem?_synchronize steady, held, Option.map_some, outcome], ?_⟩
    rw [read_synchronize steady tool t held]
    rcases result with archived | ⟨none, message, same⟩
    · exact .inl archived
    · exact .inr ⟨none, message, by rw [same]⟩
  · refine Classical.byContradiction fun none => ?_
    refine changed ((synchronize_after steady tool t).2.kept at_ ?_)
    rintro i text - ⟨r, held, hasText, target⟩
    exact none ⟨i, r, text, held, textFor_eq_ok.1 hasText, target⟩
  · constructor
    · rw [getElem?_synchronize steady, getElem?_synchronize steady]
      exact congrArg (Option.map _) same
    · cases held : tool.references[i]? with
      | none =>
        rw [read_synchronize_of_none steady tool t held]
        exact read_synchronize_of_none steady { tool with references := others } t
          (same.trans held)
      | some r =>
        rw [read_synchronize steady tool t held]
        exact read_synchronize steady { tool with references := others } t (same.trans held)

/-- A tool with a reference that can be fetched and one that cannot. -/
def twoReferences : Tool :=
  { name := "Foo", references := [⟨"http://e/a"⟩, ⟨"http://e/b#//p"⟩], generationBase := ⟨"Foo"⟩ }

def oneDocument : Synchronizer := standard (.ofDocuments [("http://e/a", "text")])

theorem textFor_oneDocument :
    oneDocument.textFor (.empty ["home"]) ⟨"http://e/a"⟩ = .ok "text" := by
  have bytes : "text".toUTF8.toList = [116, 101, 120, 116] := by decide +kernel
  change Except.ok (Text.decodeLossy "text".toUTF8.toList) = _
  rw [bytes]
  rfl

theorem synchronize_isolated_twoReferences :
    oneDocument.fetcher.IsSteady ∧
      (oneDocument.synchronize twoReferences (.empty ["home"])).2.read ⟨"Foo.ref.000.txt"⟩ =
        .ok "text".toUTF8 ∧
      (oneDocument.synchronize twoReferences (.empty ["home"])).2.read ⟨"Foo.ref.001.txt"⟩ =
        .error .notFound := by
  have steady : oneDocument.fetcher.IsSteady := Fetcher.isSteady_ofDocuments _
  obtain ⟨_, each, _⟩ := synchronize_isolated steady twoReferences (.empty ["home"])
  refine ⟨steady, ?_, ?_⟩
  · obtain ⟨_, _, ⟨text, delivers, _, _, read⟩ | ⟨none, _⟩⟩ := each 0 ⟨"http://e/a"⟩ rfl
    · cases textFor_oneDocument.symm.trans (textFor_eq_ok.2 delivers)
      exact read
    · refine absurd ⟨_, textFor_eq_ok.1 textFor_oneDocument, ?_⟩ none
      exact ⟨["home", "Foo.ref.000.txt"], by rfl⟩
  · obtain ⟨_, _, ⟨text, delivers, _⟩ | ⟨_, _, read⟩⟩ := each 1 ⟨"http://e/b#//p"⟩ rfl
    · have unreachable : (oneDocument.textFor (.empty ["home"]) ⟨"http://e/b#//p"⟩).toOption =
          none := by rfl
      rw [textFor_eq_ok.2 delivers] at unreachable
      cases unreachable
    · exact read.trans (by rfl)

end Synchronizer

end Toolwright
