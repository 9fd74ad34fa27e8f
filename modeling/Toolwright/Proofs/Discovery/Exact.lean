import Toolwright.Proofs.Discovery

/-!
Which files are discovered, and in which order. All paths that are discovered lead to files in the
one directory that was asked for, whatever characters its name has, and every file there with such a
name is discovered, unless the path of the directory strays or the system takes no path to the file.
They stand in strictly ascending order, so that nothing depends on the order in which a tree lists
its entries.
-/

namespace Toolwright

/-- A path stands before another one, and not the other way round. -/
def Path.Before (p q : Path) : Prop := p.le q = true ∧ q.le p = false

namespace Files.Tree

variable {t t' : Tree} {at_ : Location}

theorem lookup_perm {entries entries' : List (Location × Entry)} (perm : entries'.Perm entries)
    (once : (entries.map Prod.fst).Nodup) (at_ : Location) :
    entries'.lookup at_ = entries.lookup at_ := by
  induction perm with
  | nil => rfl
  | cons entry _ ih =>
    obtain ⟨key, e⟩ := entry
    rw [List.map_cons, List.nodup_cons] at once
    simp only [List.lookup_cons, ih once.2]
  | swap first second rest =>
    obtain ⟨key, e⟩ := first
    obtain ⟨key', e'⟩ := second
    rw [List.map_cons, List.map_cons, List.nodup_cons] at once
    have apart : key ≠ key' := fun same => once.1 (by simp [same])
    simp only [List.lookup_cons]
    cases here : at_ == key with
    | false => rfl
    | true =>
      obtain rfl : at_ = key := by simpa using here
      simp [beq_eq_false_iff_ne.2 apart]
  | trans _ later ih ih' => exact (ih ((later.map _).nodup_iff.2 once)).trans (ih' once)

theorem get?_perm (wellFormed : t.WellFormed) (perm : t'.entries.Perm t.entries) (at_ : Location) :
    t'.get? at_ = t.get? at_ := by
  unfold get?
  rw [lookup_perm perm wellFormed.once]

theorem WellFormed.perm (h : t.WellFormed) (home : t'.home = t.home)
    (perm : t'.entries.Perm t.entries) : t'.WellFormed where
  once := (perm.map _).nodup_iff.2 h.once
  named at_ held := h.named at_ ((perm.map _).mem_iff.1 held)
  home := by
    have there : t.get? t.home = some .directory := h.home
    rw [HasHome, home, get?_perm h perm, there]

end Files.Tree

namespace Discovery

open Files (Entry IsName Location Tree)
open Files.Glob
open Files.Tree (Extends WellFormed)

variable {t t' : Tree} {dir : Path}

theorem pairwise_before (wellFormed : t.WellFormed) (reached : Path) :
    ((found t reached).mergeSort Path.le).Pairwise Path.Before := by
  have nodup : ((found t reached).mergeSort Path.le).Nodup :=
    (List.mergeSort_perm _ _).nodup_iff.2 (nodup_found wellFormed)
  refine ((pairwise_mergeSort _).and nodup).imp_of_mem fun hp hq ⟨le, ne⟩ => ⟨le, ?_⟩
  rw [Bool.eq_false_iff]
  intro le'
  exact ne (eq_of_le_of_le wellFormed wellFormed ((List.mergeSort_perm _ _).mem_iff.1 hp)
    ((List.mergeSort_perm _ _).mem_iff.1 hq) le le')

theorem discover_eq_error {failure : Failure} (wellFormed : t.WellFormed) :
    discover t dir = .error failure ↔
      t.isDirectory dir = false ∧ failure = .io (.notDirectory dir) := by
  cases there : t.isDirectory dir with
  | true =>
    obtain ⟨at_, way⟩ := Files.Tree.isDirectory_iff.1 there
    simp [discover_eq wellFormed way]
  | false => simp [discover, there, eq_comm]

theorem discover_perm (wellFormed : t.WellFormed) (home : t'.home = t.home)
    (perm : t'.entries.Perm t.entries) : discover t' dir = discover t dir := by
  have wellFormed' := wellFormed.perm home perm
  have same : ∀ l, t'.get? l = t.get? l := Files.Tree.get?_perm wellFormed perm
  have grows : Extends Entry.SameKind t t' := ⟨home, fun l e held => ⟨e, by rw [same, held], rfl⟩⟩
  have grows' : Extends Entry.SameKind t' t :=
    ⟨home.symm, fun l e held => ⟨e, by rw [← same, held], rfl⟩⟩
  cases discovered : discover t dir with
  | ok files =>
    refine discover_again wellFormed wellFormed' grows
      (fun above name content _ held => ?_) discovered
    exact ⟨content, by rw [← same, held]⟩
  | error failure =>
    obtain ⟨none_, rfl⟩ := (discover_eq_error wellFormed).1 discovered
    refine (discover_eq_error wellFormed').2 ⟨?_, rfl⟩
    rw [Bool.eq_false_iff] at none_ ⊢
    exact fun there => none_ (grows'.isDirectory there)

/-- What is discovered are exactly the descriptions in the directory, in strictly ascending
order. -/
theorem discover_exact (wellFormed : t.WellFormed) (dir : Path) :
    (∀ failure, discover t dir = .error failure ↔
      t.isDirectory dir = false ∧ failure = .io (.notDirectory dir)) ∧
    (∀ at_, t.locate dir = .ok (.entry at_ .directory) →
      ∃ files, discover t dir = .ok files ∧ files.Pairwise Path.Before ∧
        (∀ file, file ∈ files ↔ ¬ Strays dir ∧
          ∃ name, HasDescription t at_ name ∧ file = onward (directPath dir) name ∧
          Taken file name) ∧
        ∀ file ∈ files, ∃ name content, hasJsonEnd name = true ∧
          t.locate file = .ok (.entry (at_ ++ [name]) (.file content))) ∧
    ∀ t' : Tree, t'.home = t.home → t'.entries.Perm t.entries →
      discover t' dir = discover t dir := by
  refine ⟨fun failure => discover_eq_error wellFormed, fun at_ way => ?_,
    fun t' home perm => discover_perm wellFormed home perm⟩
  refine ⟨_, discover_eq wellFormed way, ?_⟩
  by_cases strays : Strays dir
  · simp [strays]
  · have way' : t.locate (directPath dir) = .ok (.entry at_ .directory) :=
      (trail_of_locate wellFormed way strays).locate_reach
    rw [if_neg strays]
    refine ⟨pairwise_before wellFormed _, fun file => ?_, fun file held => ?_⟩
    · rw [(List.mergeSort_perm _ _).mem_iff, mem_found_iff wellFormed way', and_iff_right strays]
    · obtain ⟨name, described, rfl, taken⟩ :=
        (mem_found_iff wellFormed way').1 ((List.mergeSort_perm _ _).mem_iff.1 held)
      obtain ⟨json, content, there⟩ := described
      have isName := HasDescription.isName wellFormed ⟨json, content, there⟩
      exact ⟨name, content, json, locate_description way' isName taken there⟩

/-- A directory whose name is a pattern, and one next to it that the pattern would mean. -/
def bracketTree : Tree where
  home := []
  entries := [(["[ab]"], .directory), (["a"], .directory), (["a", "x.json"], .file .empty),
    (["[ab]", "?.json"], .file .empty), (["[ab]", "d.json"], .directory)]

theorem wellFormed_bracketTree : bracketTree.WellFormed where
  once := by decide
  named := by
    intro at_ held
    have named : ∀ name : String, name ≠ "" ∧ name ≠ "." ∧ name ≠ ".." ∧ '/' ∉ name.toList →
        IsName name :=
      fun _ h => ⟨h.1, h.2.1, h.2.2.1, h.2.2.2⟩
    have among : at_ = ["[ab]"] ∨ at_ = ["a"] ∨ at_ = ["a", "x.json"] ∨ at_ = ["[ab]", "?.json"] ∨
        at_ = ["[ab]", "d.json"] := by simpa [bracketTree] using held
    rcases among with rfl | rfl | rfl | rfl | rfl
    · exact ⟨[], _, rfl, named _ (by decide)⟩
    · exact ⟨[], _, rfl, named _ (by decide)⟩
    · exact ⟨["a"], _, rfl, named _ (by decide)⟩
    · exact ⟨["[ab]"], _, rfl, named _ (by decide)⟩
    · exact ⟨["[ab]"], _, rfl, named _ (by decide)⟩
  home := rfl

theorem discover_exact_brackets : bracketTree.WellFormed ∧
    bracketTree.locate ⟨"./[ab]//"⟩ = .ok (.entry ["[ab]"] .directory) ∧
    bracketTree.isDirectory ⟨"a/x.json"⟩ = false ∧
    discover bracketTree ⟨"a/x.json"⟩ = .error (.io (.notDirectory ⟨"a/x.json"⟩)) ∧
    ∃ files, discover bracketTree ⟨"./[ab]//"⟩ = .ok files ∧ files.Pairwise Path.Before ∧
      ⟨"[ab]/?.json"⟩ ∈ files ∧ ⟨"[ab]/d.json"⟩ ∉ files ∧ ⟨"a/x.json"⟩ ∉ files := by
  have way : bracketTree.locate ⟨"./[ab]//"⟩ = .ok (.entry ["[ab]"] .directory) := by rfl
  have straight : ¬ Strays ⟨"./[ab]//"⟩ := by decide
  have described : HasDescription bracketTree ["[ab]"] "?.json" := ⟨by decide, .empty, by rfl⟩
  have taken : Taken ⟨"[ab]/?.json"⟩ "?.json" := ⟨⟨by decide, by decide, by decide⟩, by decide⟩
  have none_ : bracketTree.isDirectory ⟨"a/x.json"⟩ = false := by rfl
  obtain ⟨-, lists, -⟩ := discover_exact wellFormed_bracketTree ⟨"./[ab]//"⟩
  obtain ⟨fails, -, -⟩ := discover_exact wellFormed_bracketTree ⟨"a/x.json"⟩
  obtain ⟨files, discovered, ascending, among, leads⟩ := lists _ way
  refine ⟨wellFormed_bracketTree, way, none_, (fails _).2 ⟨none_, rfl⟩, files, discovered,
    ascending, (among _).2 ⟨straight, "?.json", described, by rfl, taken⟩, fun held => ?_,
    fun held => ?_⟩
  · obtain ⟨name, content, -, there⟩ := leads _ held
    have directory : bracketTree.locate ⟨"[ab]/d.json"⟩ =
        .ok (.entry ["[ab]", "d.json"] .directory) := by
      rfl
    cases directory.symm.trans there
  · obtain ⟨name, content, -, there⟩ := leads _ held
    have other : bracketTree.locate ⟨"a/x.json"⟩ =
        .ok (.entry ["a", "x.json"] (.file .empty)) := by rfl
    have same := other.symm.trans there
    simp at same

/-- An empty part behind a dot is handed on to the pattern, where it means the empty path. -/
theorem discover_dot_slashes : bracketTree.WellFormed ∧
    bracketTree.locate ⟨".//a"⟩ = .ok (.entry ["a"] .directory) ∧
    HasDescription bracketTree ["a"] "x.json" ∧ discover bracketTree ⟨".//a"⟩ = .ok [] ∧
    discover bracketTree ⟨"./a"⟩ = .ok [⟨"a/x.json"⟩] := by
  have way : bracketTree.locate ⟨".//a"⟩ = .ok (.entry ["a"] .directory) := by rfl
  have way' : bracketTree.locate ⟨"./a"⟩ = .ok (.entry ["a"] .directory) := by rfl
  have found_ : found bracketTree (directPath ⟨"./a"⟩) = [⟨"a/x.json"⟩] := by rfl
  refine ⟨wellFormed_bracketTree, way, ⟨by decide, .empty, by rfl⟩, ?_, ?_⟩
  · rw [discover_eq wellFormed_bracketTree way, if_pos (by decide)]
  · rw [discover_eq wellFormed_bracketTree way', if_neg (by decide), found_,
      List.mergeSort_singleton]

end Discovery

end Toolwright
