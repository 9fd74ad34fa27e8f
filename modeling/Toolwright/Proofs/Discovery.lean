import Mathlib.Data.String.Basic
import Toolwright.Proofs.Files.Expansion
import Toolwright.Proofs.Run.Product

/-!
What is discovered. Unless its path strays, the pattern of a directory means that directory alone,
and else it means nothing at all. The descriptions of a directory are names behind one path, each
listed once, and each is a file. They are listed in an order that leaves no choice, so two trees
that have the same files of such names in a directory have the same descriptions there, in the same
order.
-/

namespace Toolwright

namespace Path

section Order

variable {a b c : Step} {as bs cs : List Step}

theorem le_entry {x y : String} : (Step.entry x).le (.entry y) = true ↔ x ≤ y := by
  rw [Step.le, Bool.not_eq_true', decide_eq_false_iff_not]
  exact not_lt

theorem le_of_rank (h : ¬ (a.rank = 3 ∧ b.rank = 3)) : a.le b = true ↔ a.rank ≤ b.rank := by
  cases a <;> cases b <;> simp_all [Step.le, Step.rank]

theorem entry_of_rank (h : a.rank = 3) : ∃ x, a = .entry x := by
  cases a <;> simp_all [Step.rank]

theorem rank_le (a : Step) : a.rank ≤ 3 := by
  cases a <;> simp [Step.rank]

theorem step_total (a b : Step) : a.le b = true ∨ b.le a = true := by
  by_cases both : a.rank = 3 ∧ b.rank = 3
  · obtain ⟨⟨x, rfl⟩, ⟨y, rfl⟩⟩ := And.intro (entry_of_rank both.1) (entry_of_rank both.2)
    simpa only [le_entry] using le_total x y
  · rw [le_of_rank both, le_of_rank fun h => both h.symm]
    exact le_total _ _

theorem rank_of_le (h : a.le b = true) : a.rank ≤ b.rank := by
  by_cases both : a.rank = 3 ∧ b.rank = 3
  · omega
  · exact (le_of_rank both).1 h

theorem step_antisymm (h : a.le b = true) (h' : b.le a = true) : a = b := by
  have same : a.rank = b.rank := Nat.le_antisymm (rank_of_le h) (rank_of_le h')
  cases a <;> cases b <;> simp_all [Step.rank]
  exact le_antisymm (le_entry.1 h) (le_entry.1 h')

theorem step_trans (h : a.le b = true) (h' : b.le c = true) : a.le c = true := by
  by_cases both : a.rank = 3 ∧ c.rank = 3
  · have between : b.rank = 3 := by
      have up := rank_of_le h
      have bound := rank_le b
      omega
    obtain ⟨x, rfl⟩ := entry_of_rank both.1
    obtain ⟨y, rfl⟩ := entry_of_rank between
    obtain ⟨z, rfl⟩ := entry_of_rank both.2
    rw [le_entry] at *
    exact le_trans h h'
  · rw [le_of_rank both]
    exact le_trans (rank_of_le h) (rank_of_le h')

theorem stepsLe_total (as bs : List Step) : stepsLe as bs = true ∨ stepsLe bs as = true := by
  induction as generalizing bs with
  | nil => exact .inl rfl
  | cons a as ih =>
    cases bs with
    | nil => exact .inr rfl
    | cons b bs =>
      by_cases same : a = b
      · simpa [stepsLe, same] using ih bs
      · simpa [stepsLe, same, Ne.symm same] using step_total a b

theorem stepsLe_antisymm (h : stepsLe as bs = true) (h' : stepsLe bs as = true) : as = bs := by
  induction as generalizing bs with
  | nil =>
    cases bs with
    | nil => rfl
    | cons b bs => cases h'
  | cons a as ih =>
    cases bs with
    | nil => cases h
    | cons b bs =>
      by_cases same : a = b
      · subst same
        simp only [stepsLe, if_true] at h h'
        rw [ih h h']
      · simp only [stepsLe, if_neg same, if_neg (Ne.symm same)] at h h'
        exact absurd (step_antisymm h h') same

theorem stepsLe_trans (h : stepsLe as bs = true) (h' : stepsLe bs cs = true) :
    stepsLe as cs = true := by
  induction as generalizing bs cs with
  | nil => rfl
  | cons a as ih =>
    cases bs with
    | nil => cases h
    | cons b bs =>
      cases cs with
      | nil => cases h'
      | cons c cs =>
        by_cases first : a = b
        · subst first
          by_cases second : a = c
          · simp only [stepsLe, second, if_true] at h h' ⊢
            exact ih h h'
          · simpa only [stepsLe, if_neg second] using h'
        · by_cases second : b = c
          · subst second
            simpa only [stepsLe, if_neg first] using h
          · simp only [stepsLe, if_neg first, if_neg second] at h h' ⊢
            have apart : a ≠ c := by
              rintro rfl
              exact first (step_antisymm h h')
            rw [if_neg apart]
            exact step_trans h h'

end Order

end Path

namespace Discovery

open Files (Entry IsName Location Tree)
open Files.Glob
open Files.Tree (Admitted Extends WellFormed mem_namesIn nameLimit)

variable {t t' : Tree} {dir reached file : Path} {name : String} {at_ : Location}
  {files : List Path}

def HasDescription (t : Tree) (at_ : Location) (name : String) : Prop :=
  hasJsonEnd name = true ∧ ∃ content, t.get? (at_ ++ [name]) = some (.file content)

/-- The system takes the path and the name that it ends with. -/
def Taken (file : Path) (name : String) : Prop := Admitted file ∧ ¬ nameLimit < name.utf8ByteSize

theorem HasDescription.among (h : HasDescription t at_ name) : name ∈ t.namesIn at_ := by
  obtain ⟨-, content, held⟩ := h
  exact mem_namesIn.2 ((Files.Tree.mem_entries_iff (by simp)).2 ⟨_, held⟩)

theorem HasDescription.isName (wellFormed : t.WellFormed) (h : HasDescription t at_ name) :
    IsName name :=
  Files.Tree.isName_of_mem_namesIn wellFormed h.among

theorem locate_description {content : ByteArray}
    (way : t.locate reached = .ok (.entry at_ .directory)) (isName : IsName name)
    (taken : Taken (onward reached name) name)
    (held : t.get? (at_ ++ [name]) = some (.file content)) :
    t.locate (onward reached name) = .ok (.entry (at_ ++ [name]) (.file content)) := by
  rw [locate_onward way isName.plain taken.1, isName.partOf]
  simp only [Files.Tree.walk, if_neg taken.2, held]

theorem isFile_onward (way : t.locate reached = .ok (.entry at_ .directory))
    (isName : IsName name) :
    t.isFile (onward reached name) = true ↔
      Taken (onward reached name) name ∧
        ∃ content, t.get? (at_ ++ [name]) = some (.file content) := by
  rw [Files.Tree.isFile_iff]
  constructor
  · rintro ⟨l, content, there⟩
    have admitted := (Files.Tree.locate_eq_ok.1 there).1
    have leads := locate_onward way isName.plain admitted
    rw [isName.partOf, there] at leads
    refine ⟨⟨admitted, fun long => ?_⟩, content, ?_⟩
    · simp [Files.Tree.walk, long] at leads
    · rcases Files.Tree.walk_name leads.symm with place | ⟨e, place⟩
      · cases place
      · cases place
        exact (Files.Tree.locate_file there).2.2
  · rintro ⟨taken, content, held⟩
    exact ⟨_, content, locate_description way isName taken held⟩

def found (t : Tree) (reached : Path) : List Path :=
  (((namesOf t reached).filter hasJsonEnd).map (onward reached)).filter t.isFile

theorem mem_found : file ∈ found t reached ↔ ∃ at_ name,
    t.locate reached = .ok (.entry at_ .directory) ∧ name ∈ t.namesIn at_ ∧
      hasJsonEnd name = true ∧ file = onward reached name ∧ t.isFile file = true := by
  simp only [found, List.mem_filter, List.mem_map, namesOf]
  constructor
  · rintro ⟨⟨name, ⟨among, json⟩, rfl⟩, there⟩
    split at among
    · rename_i at_ here
      exact ⟨at_, name, Files.Tree.find_eq_ok.1 here, among, json, rfl, there⟩
    · cases among
  · rintro ⟨at_, name, here, among, json, rfl, there⟩
    refine ⟨⟨name, ⟨?_, json⟩, rfl⟩, there⟩
    rw [Files.Tree.find_eq_ok.2 here]
    exact among

theorem mem_found_iff (wellFormed : t.WellFormed)
    (way : t.locate reached = .ok (.entry at_ .directory)) : file ∈ found t reached ↔
      ∃ name, HasDescription t at_ name ∧ file = onward reached name ∧ Taken file name := by
  rw [mem_found]
  constructor
  · rintro ⟨l, name, here, among, json, rfl, there⟩
    cases here.symm.trans way
    have isName := Files.Tree.isName_of_mem_namesIn wellFormed among
    obtain ⟨taken, held⟩ := (isFile_onward way isName).1 there
    exact ⟨name, ⟨json, held⟩, rfl, taken⟩
  · rintro ⟨name, described, rfl, taken⟩
    have there := (isFile_onward way (described.isName wellFormed)).2 ⟨taken, described.2⟩
    exact ⟨at_, name, way, described.among, described.1, rfl, there⟩

theorem descriptionIn_of_mem (wellFormed : t.WellFormed) (h : file ∈ found t reached) :
    DescriptionIn (siteOf reached) file := by
  obtain ⟨at_, name, _, among, json, rfl, _⟩ := mem_found.1 h
  have isName := Files.Tree.isName_of_mem_namesIn wellFormed among
  exact ⟨name, isName, json, onward_eq isName.plain⟩

theorem nodup_found (wellFormed : t.WellFormed) : (found t reached).Nodup := by
  refine List.Nodup.filter _ (List.Nodup.map_on ?_ (List.Nodup.filter _ ?_))
  · intro x hx y hy same
    have isName : ∀ {z}, z ∈ (namesOf t reached).filter hasJsonEnd → IsName z := by
      intro z hz
      have among := (List.mem_filter.1 hz).1
      unfold namesOf at among
      split at among
      · exact Files.Tree.isName_of_mem_namesIn wellFormed among
      · cases among
    have names := congrArg Path.fileName? same
    rw [onward_eq (isName hx).plain, onward_eq (isName hy).plain, Path.fileName?_join (isName hx),
      Path.fileName?_join (isName hy)] at names
    exact Option.some.inj names
  · unfold namesOf
    split
    · exact Files.Tree.nodup_namesIn wellFormed
    · exact List.nodup_nil

theorem eq_of_le_of_le (wellFormed : t.WellFormed) (wellFormed' : t'.WellFormed) {p q : Path}
    (hp : p ∈ found t reached) (hq : q ∈ found t' reached) (le : p.le q = true)
    (le' : q.le p = true) :
    p = q := by
  have steps := Path.stepsLe_antisymm le le'
  obtain ⟨n, isName, _, rfl⟩ := descriptionIn_of_mem wellFormed hp
  obtain ⟨n', isName', _, rfl⟩ := descriptionIn_of_mem wellFormed' hq
  rw [Path.steps_join isName, Path.steps_join isName'] at steps
  obtain rfl : n = n' := by simpa using steps
  rfl

theorem pairwise_mergeSort (l : List Path) :
    (l.mergeSort Path.le).Pairwise fun p q => p.le q = true := by
  have trans : ∀ p q r : Path, p.le q = true → q.le r = true → p.le r = true :=
    fun _ _ _ => Path.stepsLe_trans
  have total : ∀ p q : Path, (p.le q || q.le p) = true := fun p q => by
    rw [Bool.or_eq_true]
    exact Path.stepsLe_total p.steps q.steps
  exact List.pairwise_mergeSort trans total l

theorem mergeSort_found (wellFormed : t.WellFormed) (wellFormed' : t'.WellFormed)
    (perm : (found t' reached).Perm (found t reached)) :
    (found t' reached).mergeSort Path.le = (found t reached).mergeSort Path.le :=
  List.Perm.eq_of_pairwise
    (fun _ _ hp hq => eq_of_le_of_le wellFormed' wellFormed ((List.mergeSort_perm _ _).mem_iff.1 hp)
      ((List.mergeSort_perm _ _).mem_iff.1 hq))
    (pairwise_mergeSort _) (pairwise_mergeSort _)
    ((List.mergeSort_perm _ _).trans (perm.trans (List.mergeSort_perm _ _).symm))

def jsonTokens : List Token := .anyText :: ".json".toList.map escapedToken

theorem takes_jsonTokens (name : String) : takes jsonTokens name.toList = hasJsonEnd name := by
  rw [Bool.eq_iff_iff, jsonTokens, takes_anyText_escaped, hasJsonEnd, List.isSuffixOf_iff_suffix]

theorem expand_jsonTokens (t : Tree) (reached : Path) :
    expand t reached [jsonTokens] =
      ((namesOf t reached).filter hasJsonEnd).map (onward reached) := by
  have none_ : literal? jsonTokens = none := rfl
  rw [expand, none_]
  simp only [takes_jsonTokens, expand]
  exact List.flatMap_pure_eq_map _ _

theorem isAbsolute_jsonPattern (nonempty : dir.text ≠ "") :
    Path.isAbsolute ⟨jsonPattern dir⟩ = dir.isAbsolute := by
  obtain ⟨slashes, only, whole⟩ := Text.exists_dropEnd (· == '/') dir.text.toList
  unfold Path.isAbsolute jsonPattern
  rw [dropEnd_escape, String.toList_append, String.toList_ofList]
  generalize Text.dropEnd (· == '/') dir.text.toList = front at whole ⊢
  rw [whole]
  cases front with
  | nil =>
    cases slashes with
    | nil => exact absurd (String.toList_eq_nil_iff.1 whole) nonempty
    | cons c slashes => simp [escape, beq_iff_eq.1 (only c (by simp))]
  | cons c front =>
    rw [escape_cons]
    cases special : isSpecial c with
    | true =>
      have other : c ≠ '/' := by
        rintro rfl
        exact absurd special (by decide)
      simp [other]
    | false => simp

theorem toList_jsonPattern (dir : Path) : (jsonPattern dir).toList =
    escape (Text.dropEnd (· == '/') dir.text.toList) ++ "/*.json".toList := by
  rw [jsonPattern, dropEnd_escape, String.toList_append, String.toList_ofList]

theorem splitAt_jsonPattern (dir : Path) : Text.splitAt (· == '/') (jsonPattern dir).toList =
    (Text.splitAt (· == '/') (Text.dropEnd (· == '/') dir.text.toList)).map escape ++
      ["*.json".toList] := by
  rw [toList_jsonPattern, ← splitAt_escape, Text.splitAt_eq_splitOnP, Text.splitAt_eq_splitOnP]
  exact List.splitOnP_append_cons _ _ (by decide)

theorem mapM_tokens (pieces : List (List Char)) :
    (pieces.map escape ++ ["*.json".toList]).mapM tokens =
      .ok (pieces.map (·.map escapedToken) ++ [jsonTokens]) := by
  induction pieces with
  | nil => rfl
  | cons piece pieces ih =>
    rw [List.map_cons, List.cons_append, List.mapM_cons, ih, tokens_escape]
    rfl

theorem paths_jsonPattern (t : Tree) (nonempty : dir.text ≠ "") : paths t (jsonPattern dir) =
    .ok (expand t (rootOf dir) ((piecesOf dir).map (·.map escapedToken) ++ [jsonTokens])) := by
  have read : ∃ found, tokens (jsonPattern dir).toList = .ok found := by
    have last : ∀ n, tokensFrom n none "/*.json".toList = .ok (.char '/' :: jsonTokens) :=
      fun _ => rfl
    rw [toList_jsonPattern, tokens, tokensFrom_escape, last]
    exact ⟨_, rfl⟩
  obtain ⟨found, read⟩ := read
  unfold paths
  rw [isAbsolute_jsonPattern nonempty, splitAt_jsonPattern, mapM_tokens, read]
  cases absolute : dir.isAbsolute with
  | true => simp [rootOf, absolute, splitAt_of_absolute absolute, bind, Except.bind]
  | false => simp [rootOf, absolute, piecesOf, bind, Except.bind]

theorem discover_eq (wellFormed : t.WellFormed) (way : t.locate dir = .ok (.entry at_ .directory)) :
    discover t dir =
      .ok (if Strays dir then [] else (found t (directPath dir)).mergeSort Path.le) := by
  have nonempty : dir.text ≠ "" := by simpa using (Files.Tree.locate_eq_ok.1 way).1.nonempty
  unfold discover
  rw [if_pos (Files.Tree.isDirectory_iff.2 ⟨at_, way⟩), paths_jsonPattern t nonempty]
  by_cases strays : Strays dir
  · have root : rootOf dir = ⟨"."⟩ := if_neg (by simp [strays.1])
    rw [if_pos strays, root, expand_of_astray strays.2]
    simp
  · have trail := trail_of_locate wellFormed way strays
    rw [if_neg strays, expand_of_trail wellFormed trail, expand_jsonTokens]
    rfl

/-- A run has descriptions only when the directory is there, and then they are what is found there,
in order. -/
theorem discover_eq_ok (wellFormed : t.WellFormed) (h : discover t dir = .ok files) :
    t.isDirectory dir = true ∧
      files = if Strays dir then [] else (found t (directPath dir)).mergeSort Path.le := by
  by_cases there : t.isDirectory dir = true
  · obtain ⟨at_, way⟩ := Files.Tree.isDirectory_iff.1 there
    rw [discover_eq wellFormed way] at h
    exact ⟨there, (Except.ok.inj h).symm⟩
  · rw [discover, if_neg there] at h
    cases h

theorem discover_spec (wellFormed : t.WellFormed) (h : discover t dir = .ok files) :
    files.Nodup ∧ ∃ site, ∀ file ∈ files, DescriptionIn site file ∧ t.isFile file = true := by
  obtain ⟨_, which⟩ := discover_eq_ok wellFormed h
  split at which
  · exact ⟨by simp [which], dir, by simp [which]⟩
  · have perm : files.Perm (found t (directPath dir)) := which ▸ List.mergeSort_perm _ _
    refine ⟨perm.nodup_iff.2 (nodup_found wellFormed), siteOf (directPath dir), fun file held => ?_⟩
    have among := perm.mem_iff.1 held
    obtain ⟨_, _, _, _, _, _, there⟩ := mem_found.1 among
    exact ⟨descriptionIn_of_mem wellFormed among, there⟩

/-- Files of such names that are there now were there before. -/
def NoNewDescription (t t' : Tree) : Prop := ∀ above name content, hasJsonEnd name = true →
  t'.get? (above ++ [name]) = some (.file content) →
    ∃ older, t.get? (above ++ [name]) = some (.file older)

theorem hasDescription_again (grows : Extends Entry.SameKind t t')
    (none_new : NoNewDescription t t') :
    HasDescription t' at_ name ↔ HasDescription t at_ name := by
  refine and_congr_right fun json => ⟨fun ⟨content, held⟩ => none_new _ _ content json held, ?_⟩
  rintro ⟨content, held⟩
  obtain ⟨e, after, kind⟩ := grows.entry _ _ held
  obtain ⟨content', rfl⟩ := kind.file
  exact ⟨content', after⟩

theorem mem_found_again (wellFormed : t.WellFormed) (wellFormed' : t'.WellFormed)
    (grows : Extends Entry.SameKind t t') (none_new : NoNewDescription t t')
    (way : t.locate reached = .ok (.entry at_ .directory)) :
    file ∈ found t' reached ↔ file ∈ found t reached := by
  obtain ⟨e, way', kind⟩ := grows.locate (fun _ _ same => same) rfl way
  obtain rfl := kind.directory
  rw [mem_found_iff wellFormed' way', mem_found_iff wellFormed way]
  exact exists_congr fun name => and_congr_left' (hasDescription_again grows none_new)

theorem discover_again (wellFormed : t.WellFormed) (wellFormed' : t'.WellFormed)
    (grows : Extends Entry.SameKind t t') (none_new : NoNewDescription t t')
    (h : discover t dir = .ok files) : discover t' dir = .ok files := by
  obtain ⟨there, which⟩ := discover_eq_ok wellFormed h
  obtain ⟨at_, way'⟩ := Files.Tree.isDirectory_iff.1 (grows.isDirectory there)
  rw [discover_eq wellFormed' way', which]
  split
  · rfl
  · rename_i straight
    obtain ⟨at_, way⟩ := Files.Tree.isDirectory_iff.1 there
    have reached := (trail_of_locate wellFormed way straight).locate_reach
    refine congrArg Except.ok (mergeSort_found wellFormed wellFormed' ?_)
    refine (List.perm_ext_iff_of_nodup (nodup_found wellFormed') (nodup_found wellFormed)).2
      fun _ => ?_
    exact mem_found_again wellFormed wellFormed' grows none_new reached

open Loading (boxFile boxTree)

theorem wellFormed_box : boxTree.WellFormed where
  once := by simp [boxTree]
  named := by
    intro at_ held
    obtain rfl : at_ = ["demo.json"] := by simpa [boxTree] using held
    exact ⟨[], "demo.json", rfl, by decide, by decide, by decide, by decide⟩
  home := rfl

theorem discover_box : discover boxTree ⟨"."⟩ = .ok [boxFile] := by
  have here : boxTree.locate ⟨"."⟩ = .ok (.entry boxTree.home .directory) := by rfl
  have among : found boxTree (directPath ⟨"."⟩) = [boxFile] := by rfl
  rw [discover_eq wellFormed_box here, if_neg (by decide), among, List.mergeSort_singleton]

end Discovery

end Toolwright
