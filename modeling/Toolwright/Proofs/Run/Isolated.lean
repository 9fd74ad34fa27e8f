import Toolwright.Proofs.Run.Among
import Toolwright.Proofs.Run.Report

/-!
Descriptions of a list worked on one after another. When they keep out of each other's way the same
comes of each one as if it were alone, whatever the order, unless its name is in use. It is not
enough that descriptions and their siblings keep out of the directories of tools: one that is looked
for along such a directory is found only once the directory is made.
-/

namespace Toolwright.Pipeline

open Files (Tree)
open Files.Tree (HasHome Overlays)
open Loading (box boxFile boxText)

variable {p : Pipeline} {s s' : RunState} {t a : Tree} {files : List Path}
  {outcomes : List FileOutcome} {stopped : Bool} {k : Nat}

theorem Courses.files_eq (onward : p.options.failFast = false)
    (h : p.Courses s files outcomes stopped s') : outcomes.map (·.file) = files := by
  refine h.whole (Bool.eq_false_iff.2 fun stops => ?_)
  rw [(h.stopped_iff.1 stops).1] at onward
  cases onward

theorem Courses.length_eq (onward : p.options.failFast = false)
    (h : p.Courses s files outcomes stopped s') : outcomes.length = files.length := by
  rw [← h.files_eq onward, List.length_map]

theorem not_isLate (nodup : (files.filterMap (p.loadedName? t)).Nodup) (k : Nat) :
    ¬ p.IsLate t files k := by
  rintro ⟨name, named, j, below, named'⟩
  obtain ⟨file, held, loads⟩ := Option.bind_eq_some_iff.1 named
  obtain ⟨other, held', loads'⟩ := Option.bind_eq_some_iff.1 named'
  obtain ⟨bound, rfl⟩ := List.getElem?_eq_some_iff.1 held
  obtain ⟨bound', rfl⟩ := List.getElem?_eq_some_iff.1 held'
  have apart := List.pairwise_iff_getElem.1 (List.pairwise_filterMap.1 nodup) j k bound' bound below
  exact apart name loads' name loads rfl

theorem laid_iff_mem (early : ∀ k, ¬ p.IsLate t files k) :
    p.Laid t files files.length a ↔ ∃ file ∈ files, a = p.aloneTree t file := by
  refine ⟨Laid.mem, fun ⟨file, held, same⟩ => ?_⟩
  obtain ⟨j, bound, rfl⟩ := List.getElem_of_mem held
  exact ⟨j, bound, early j, _, List.getElem?_eq_getElem bound, same⟩

theorem Separate.perm {files' : List Path} (h : p.Separate t files) (same : files'.Perm files) :
    p.Separate t files' where
  sibling a held b held' := h.sibling a (same.mem_iff.1 held) b (same.mem_iff.1 held')
  output a held b held' := h.output a (same.mem_iff.1 held) b (same.mem_iff.1 held')
  way a held at_ gap b held' := h.way a (same.mem_iff.1 held) at_ gap b (same.mem_iff.1 held')
  root := h.root

section Course

variable (setting : p.Setting t files) (courses : p.Courses ⟨t, 0, []⟩ files outcomes stopped s')

include setting courses

theorem Courses.sound (among : k ≤ outcomes.length) :
    p.Sound t files k (p.stateAt ⟨t, 0, []⟩ files k) := by
  induction k with
  | zero => exact .start p t files
  | succ k ih =>
    obtain ⟨held, works⟩ := courses.turn (List.getElem?_eq_getElem among)
    exact ((ih (by omega)).next setting held works).1

theorem Courses.nameAt?_eq_loadsAs (among : k < outcomes.length) :
    p.nameAt? t files k = p.loadsAs t files k := by
  have held := List.getElem?_eq_getElem among
  obtain ⟨there, works⟩ := courses.turn held
  have sound := courses.sound setting (Nat.le_of_lt among)
  rw [courses.nameAt?_eq held, loadsAs_eq there, (sound.next setting there works).2.1]

theorem Courses.isLate_iff (among : k < outcomes.length) : p.IsLate t files k ↔
    ∃ name, p.nameAt? t files k = some name ∧ ∃ j < k, p.nameAt? t files j = some name := by
  have names : ∀ j ≤ k, p.nameAt? t files j = p.loadsAs t files j := fun j below =>
    courses.nameAt?_eq_loadsAs setting (by omega)
  rw [IsLate, names k (Nat.le_refl k)]
  refine exists_congr fun name => and_congr_right fun _ => exists_congr fun j =>
    and_congr_right fun below => ?_
  rw [names j (by omega)]

theorem Courses.outcomes_eq (onward : p.options.failFast = false)
    (early : ∀ k, ¬ p.IsLate t files k) :
    outcomes = files.map fun file => ⟨file, p.aloneResult t file⟩ := by
  refine List.ext_getElem (by rw [List.length_map, courses.length_eq onward]) fun k below _ => ?_
  obtain ⟨there, works⟩ := courses.turn (List.getElem?_eq_getElem below)
  have sound := courses.sound setting (Nat.le_of_lt below)
  have same := (sound.next setting there works).2.2.1 (early k)
  obtain ⟨_, file⟩ := List.getElem?_eq_some_iff.1 there
  rw [List.getElem_map, file, ← same]

theorem Courses.overlays (onward : p.options.failFast = false) (early : ∀ k, ¬ p.IsLate t files k) :
    Overlays (fun a => ∃ file ∈ files, a = p.aloneTree t file) t s'.tree := by
  have sound := courses.sound setting (Nat.le_refl _)
  rw [courses.state_eq, courses.length_eq onward] at sound
  exact sound.overlay.congr fun a => (laid_iff_mem early).symm

end Course

/-- Unless an earlier description is loaded under the same name, a description has the outcome that
it has alone, and what is left of it is what is left of it alone. Otherwise the name is said to be
in use, and nothing is changed. If no two descriptions are loaded under one name their order does
not matter. -/
theorem runFiles_isolated (wrapper : p.renderer = .wrapper)
    (steady : p.synchronizer.fetcher.IsSteady) (onward : p.options.failFast = false)
    (home : HasHome t) (rooted : t.Rooted) (separate : p.Separate t files) :
    (p.runFiles t files).1.outcomes.map (·.file) = files ∧
    (∀ k o, (p.runFiles t files).1.outcomes[k]? = some o →
      p.nameAt? t files k = p.loadedName? t o.file ∧
      (∀ name, p.nameAt? t files k = some name → (∃ j < k, p.nameAt? t files j = some name) →
        (∃ owner, o.result = .error (.load o.file (.nameTaken name owner))) ∧
          (p.stateAt ⟨t, 0, []⟩ files (k + 1)).tree = (p.stateAt ⟨t, 0, []⟩ files k).tree) ∧
      ((∀ name, p.nameAt? t files k = some name → ∀ j < k, p.nameAt? t files j ≠ some name) →
        (p.runFiles t [o.file]).1.outcomes = [o] ∧
          ∀ q, p.Belongs t o.file q →
            (p.runFiles t files).2.2.read q = (p.runFiles t [o.file]).2.2.read q)) ∧
    ((files.filterMap (p.loadedName? t)).Nodup → ∀ files', files'.Perm files →
      (p.runFiles t files').1.outcomes.Perm (p.runFiles t files).1.outcomes ∧
        ∀ at_, (p.runFiles t files').2.2.get? at_ = (p.runFiles t files).2.2.get? at_) := by
  have setting : p.Setting t files := ⟨wrapper, steady, home, rooted, separate⟩
  -- the course of any list is needed, for the reordered one and for a description alone
  have courses : ∀ files, p.Courses ⟨t, 0, []⟩ files (p.runFiles t files).1.outcomes
      (p.runFiles t files).1.stoppedEarly (p.processAll ⟨t, 0, []⟩ files).state :=
    fun files => courses_iff.2 ⟨_, rfl⟩
  have course := courses files
  refine ⟨course.files_eq onward, fun k o held => ?_, fun nodup files' same => ?_⟩
  · obtain ⟨there, works⟩ := course.turn held
    have among := (List.getElem?_eq_some_iff.1 held).1
    have sound := course.sound setting (Nat.le_of_lt among)
    obtain ⟨_, loads, alone, late⟩ := sound.next setting there works
    have isLate := course.isLate_iff setting among
    refine ⟨(course.nameAt?_eq held).trans loads, fun name named earlier => ?_, fun apart => ?_⟩
    · obtain ⟨kept, name', owner, named', refused⟩ := late (isLate.2 ⟨name, named, earlier⟩)
      rw [← course.nameAt?_eq_loadsAs setting among] at named'
      cases named.symm.trans named'
      exact ⟨⟨owner, refused⟩, kept⟩
    · have early : ¬ p.IsLate t files k := by
        rw [isLate]
        rintro ⟨name, named, j, below, named'⟩
        exact apart name named j below named'
      obtain ⟨outcome, tree⟩ := runFiles_alone onward t o.file
      refine ⟨by rw [outcome, ← alone early], fun q belongs => ?_⟩
      cases dry : p.options.dryRun with
      | true =>
        rw [(runFiles_of_dryRun dry t files).1, (runFiles_of_dryRun dry t [o.file]).1]
      | false =>
        have final := course.sound setting (Nat.le_refl _)
        rw [course.state_eq] at final
        rw [tree]
        exact final.read_eq setting dry among there early belongs
  · have course' := courses files'
    have nodup' : (files'.filterMap (p.loadedName? t)).Nodup := (same.filterMap _).nodup_iff.2 nodup
    have setting' : p.Setting t files' := { setting with separate := separate.perm same }
    constructor
    · rw [course'.outcomes_eq setting' onward (not_isLate nodup'),
        course.outcomes_eq setting onward (not_isLate nodup)]
      exact same.map _
    · have laid' := course'.overlays setting' onward (not_isLate nodup')
      have laid := course.overlays setting onward (not_isLate nodup)
      exact (laid'.congr fun a => by simp only [same.mem_iff]).unique laid

def otherFile : Path := ⟨"other.json"⟩

/-- The same file, looked for through the directory of the tools. -/
def throughFile : Path := ⟨"out/../other.json"⟩

def otherText : String := "[\"other\"]"

def otherTool : Tool where
  name := "other"

def pairTree : Tree := ⟨[], [(["demo.json"], .file boxText.toUTF8),
  (["other.json"], .file otherText.toUTF8), (["notes"], .file "".toUTF8)]⟩

theorem describes_pair : Describes pairTree boxFile boxText box ∧
    Describes pairTree otherFile otherText otherTool :=
  ⟨⟨Files.Tree.readText_eq_ok.2 ⟨["demo.json"], by rfl⟩, by rfl, by rfl⟩,
    ⟨Files.Tree.readText_eq_ok.2 ⟨["other.json"], by rfl⟩, by rfl, by rfl⟩⟩

theorem rooted_pair : pairTree.Rooted := by
  refine Files.Tree.rooted_of_entries fun entry held => ?_
  simp only [pairTree, List.mem_cons, List.not_mem_nil, or_false] at held
  obtain rfl | rfl | rfl := held <;> rfl

theorem home_pair : HasHome pairTree := by rfl

theorem unread_through : pairTree.readText throughFile = .error .notFound := by rfl

def pairFiles : List Path := [boxFile, otherFile, throughFile]

theorem described_pair {file : Path} {old : String} {parsed : Tool} (held : file ∈ pairFiles)
    (described : Describes pairTree file old parsed) : parsed = box ∨ parsed = otherTool := by
  simp only [pairFiles, List.mem_cons, List.not_mem_nil, or_false] at held
  obtain rfl | rfl | rfl := held
  · exact .inl (described.unique describes_pair.1).2
  · exact .inr (described.unique describes_pair.2).2
  · exact nomatch unread_through.symm.trans described.1

theorem apart_pair {p : Pipeline} {files : List Path} (among : files ⊆ pairFiles)
    (clear : ∀ a ∈ pairFiles, ∀ name ∈ ["demo", "other"],
      ¬ Along (pairTree.aim a) (pairTree.aim (p.options.load.outputRoot.join ⟨name⟩)) ∧
        ¬ Along (pairTree.aim (Saving.siblingPath a))
          (pairTree.aim (p.options.load.outputRoot.join ⟨name⟩))) : p.Apart pairTree files where
  sibling a held b held' _ := by
    have apart : ∀ a ∈ pairFiles, ∀ b ∈ pairFiles,
        pairTree.aim a ≠ pairTree.aim (Saving.siblingPath b) := by decide
    exact apart a (among held) b (among held')
  output a held b held' old parsed described := by
    obtain rfl | rfl := described_pair (among held') described
    · exact clear a (among held) "demo" (by simp)
    · exact clear a (among held) "other" (by simp)

theorem separate_pair {files : List Path} (among : files ⊆ [boxFile, otherFile]) :
    boxPipeline.Separate pairTree files where
  toApart := apart_pair (List.Subset.trans among (by decide)) (by decide)
  way a held at_ gap := by
    have none : ∀ a ∈ [boxFile, otherFile], pairTree.gap? a = none := by decide
    rw [none a (among held)] at gap
    cases gap
  root := by
    have moves : Files.Tree.movesOf boxPipeline.options.load.outputRoot = [.name "out"] := by rfl
    exact Files.Tree.climbs_of_down (by simp [moves])

theorem loadedName?_pair : boxPipeline.loadedName? pairTree boxFile = some "demo" ∧
    boxPipeline.loadedName? pairTree otherFile = some "other" := ⟨by rfl, by rfl⟩

theorem runFiles_isolated_pair : ∃ first second owner,
    (boxPipeline.runFiles pairTree [boxFile, otherFile, boxFile]).1.outcomes = [first, second,
      ⟨boxFile, .error (.load boxFile (.nameTaken "demo" owner))⟩] ∧
    (boxPipeline.runFiles pairTree [boxFile]).1.outcomes = [first] ∧
    (boxPipeline.runFiles pairTree [otherFile]).1.outcomes = [second] ∧
    ∀ at_, (boxPipeline.runFiles pairTree [otherFile, boxFile]).2.2.get? at_ =
      (boxPipeline.runFiles pairTree [boxFile, otherFile]).2.2.get? at_ := by
  have steady : boxPipeline.synchronizer.fetcher.IsSteady := fun _ _ _ => rfl
  obtain ⟨demo, named⟩ := loadedName?_pair
  have thrice : boxPipeline.Separate pairTree [boxFile, otherFile, boxFile] :=
    separate_pair (by decide)
  have twice : boxPipeline.Separate pairTree [boxFile, otherFile] := separate_pair (by decide)
  obtain ⟨listed, each, _⟩ := runFiles_isolated rfl steady rfl home_pair rooted_pair thrice
  obtain ⟨_, _, order⟩ := runFiles_isolated rfl steady rfl home_pair rooted_pair twice
  generalize (boxPipeline.runFiles pairTree [boxFile, otherFile, boxFile]).1.outcomes = outcomes
    at listed each ⊢
  obtain ⟨first, _, rfl, file₁, listed₁⟩ := List.map_eq_cons_iff.1 listed
  obtain ⟨second, _, rfl, file₂, listed₂⟩ := List.map_eq_cons_iff.1 listed₁
  obtain ⟨⟨file₃, result⟩, rest, rfl, rfl, listed₃⟩ := List.map_eq_cons_iff.1 listed₂
  obtain rfl : rest = [] := List.map_eq_nil_iff.1 listed₃
  obtain ⟨loads₁, _, alone₁⟩ := each 0 first rfl
  obtain ⟨loads₂, _, alone₂⟩ := each 1 second rfl
  obtain ⟨loads₃, late, _⟩ := each 2 _ rfl
  rw [file₁] at loads₁ alone₁
  rw [file₂] at loads₂ alone₂
  obtain ⟨⟨owner, refused⟩, _⟩ := late "demo" (loads₃.trans demo) ⟨0, by decide, loads₁.trans demo⟩
  have refused' : result = .error (.load boxFile (.nameTaken "demo" owner)) := refused
  refine ⟨first, second, owner, by rw [refused'], (alone₁ fun _ _ j below => by omega).1,
    (alone₂ fun name named' j below => ?_).1, fun at_ => (order ?_ _ (.swap _ _ [])).2 at_⟩
  · obtain rfl : j = 0 := by omega
    rw [loads₁, demo, ← named', loads₂, named]
    decide
  · simp only [List.filterMap_cons, demo, named, List.filterMap_nil]
    decide

/-- Unless its name is in use, every description has the outcome that it has alone. -/
def EachAlone (p : Pipeline) (t : Tree) (files : List Path) : Prop :=
  ∀ k o, (p.runFiles t files).1.outcomes[k]? = some o →
    (∀ name, p.nameAt? t files k = some name → ∀ j < k, p.nameAt? t files j ≠ some name) →
      (p.runFiles t [o.file]).1.outcomes = [o]

theorem second_turn {first second : Path} (onward : p.options.failFast = false)
    (alone : p.EachAlone t [first, second])
    (apart : ∀ name, p.loadedName? (p.aloneTree t first) second = some name →
      p.loadedName? t first ≠ some name) :
    ∃ s s', s.tree = p.aloneTree t first ∧ p.Works s second (p.aloneResult t second) s' := by
  have course : p.Courses ⟨t, 0, []⟩ [first, second] (p.runFiles t [first, second]).1.outcomes
      (p.runFiles t [first, second]).1.stoppedEarly
      (p.processAll ⟨t, 0, []⟩ [first, second]).state :=
    courses_iff.2 ⟨_, rfl⟩
  have among : 1 < (p.runFiles t [first, second]).1.outcomes.length := by
    rw [course.length_eq onward]
    exact Nat.lt_succ_self 1
  have held := List.getElem?_eq_getElem among
  obtain ⟨there, works⟩ := course.turn held
  have before : p.stateAt ⟨t, 0, []⟩ [first, second] 1 = (p.process ⟨t, 0, []⟩ first).2.2 :=
    stateAt_one (p.works_alone t first) [second]
  generalize (p.runFiles t [first, second]).1.outcomes[1] = o at held there works
  obtain ⟨file, result⟩ := o
  obtain rfl : second = file := Option.some.inj there
  have outcome := alone 1 _ held fun name named j below => by
    obtain rfl : j = 0 := by omega
    rw [course.nameAt?_eq held, before] at named
    exact apart name named
  rw [(runFiles_alone onward t second).1] at outcome
  obtain rfl : p.aloneResult t second = result := by simpa using outcome
  exact ⟨_, _, congrArg RunState.tree before, works⟩

def pairMade : Tree := (pairTree.put ["out"] .directory).put ["out", "demo"] .directory

theorem load_pair : Loading.load boxPipeline.loadOptions pairTree boxFile =
    (.ok (boxPipeline.placed boxFile box), pairMade) :=
  load_eq_ok.2 ⟨box, boxText, describes_pair.1, rfl, by rfl⟩

theorem describes_through : Describes (boxPipeline.aloneTree pairTree boxFile) throughFile
    otherText otherTool := by
  have plain := plain_of_wrapper (p := boxPipeline) rfl
  have separate : boxPipeline.Separate pairTree [boxFile, otherFile] := separate_pair (by decide)
  have kept : (boxPipeline.aloneTree pairTree boxFile).get? ["other.json"] =
      some (.file otherText.toUTF8) := by
    by_contra changed
    have own : boxPipeline.OwnPlaces pairTree otherFile otherTool ["other.json"] :=
      ⟨.description, by rfl⟩
    obtain ⟨loads, _⟩ := separate.touched plain home_pair rooted_pair (by simp) List.mem_cons_self
      describes_pair.2 own changed
    exact absurd (loadedName?_pair.1.symm.trans loads) (by decide)
  have read : pairMade.readText throughFile = .ok otherText :=
    Files.Tree.readText_eq_ok.2 ⟨["other.json"], by rfl⟩
  exact ⟨(aloneTree_of_load plain load_pair).readText_of_get? read kept, describes_pair.2.2⟩

/-- The directories of tools are to be in a file, which is seen once `x` is made. -/
def notesPipeline : Pipeline :=
  { boxPipeline with options := { RunOptions.standard with load := .below ⟨"x/../notes"⟩ } }

theorem load_notes :
    Loading.load notesPipeline.loadOptions pairTree boxFile =
      (.error (.load boxFile (.cannotCreate ⟨"x/../notes/demo"⟩ .alreadyExists)),
        pairTree.put ["x"] .directory) ∧
    Loading.load notesPipeline.loadOptions pairTree otherFile =
      (.error (.load otherFile (.cannotCreate ⟨"x/../notes/other"⟩ .alreadyExists)),
        pairTree.put ["x"] .directory) ∧
    Loading.load notesPipeline.loadOptions (pairTree.put ["x"] .directory) otherFile =
      (.error (.load otherFile (.cannotCreate ⟨"x/../notes/other"⟩ .notDirectory)),
        pairTree.put ["x"] .directory) := ⟨by rfl, by rfl, by rfl⟩

/-- It is not enough that descriptions and siblings are apart from the directories of tools. In the
first run a directory that the way to a description leads through is made for another tool. In the
second one the directories of the tools cannot be made, and why depends on what is there. -/
theorem apart_not_enough :
    (HasHome pairTree ∧ pairTree.Rooted) ∧
    (∀ p ∈ [boxPipeline, notesPipeline], p.renderer = .wrapper ∧
      p.synchronizer.fetcher.IsSteady ∧ p.options.failFast = false) ∧
    (boxPipeline.Apart pairTree [boxFile, throughFile] ∧
      ¬ boxPipeline.EachAlone pairTree [boxFile, throughFile]) ∧
    (notesPipeline.Apart pairTree [boxFile, otherFile] ∧
      ¬ notesPipeline.EachAlone pairTree [boxFile, otherFile]) := by
  refine ⟨⟨home_pair, rooted_pair⟩, ?_, ?_, ?_⟩
  · exact List.forall_mem_cons.2 ⟨⟨rfl, fun _ _ _ => rfl, rfl⟩,
      List.forall_mem_singleton.2 ⟨rfl, fun _ _ _ => rfl, rfl⟩⟩
  · refine ⟨apart_pair (by decide) (by decide), fun alone => ?_⟩
    obtain ⟨s, s', tree, works⟩ := second_turn rfl alone fun name named => by
      obtain ⟨_, _, _, described, rfl, _⟩ := loadedName?_eq_some named
      obtain ⟨rfl, rfl⟩ := describes_through.unique described
      rw [loadedName?_pair.1]
      decide
    have read : boxPipeline.aloneResult pairTree throughFile ≠
        .error (.load throughFile (.fault .notFound)) :=
      works.ne_unread (by rw [tree]; exact describes_through)
    have fails : Loading.load boxPipeline.loadOptions pairTree throughFile =
        (.error (.load throughFile (.fault .notFound)), pairTree) := by rfl
    exact read (by rw [aloneResult, process_of_load_error (s := ⟨pairTree, 0, []⟩) fails])
  · refine ⟨apart_pair (by decide) (by decide), fun alone => ?_⟩
    obtain ⟨first, second, later⟩ := load_notes
    have made : notesPipeline.aloneTree pairTree boxFile = pairTree.put ["x"] .directory := by
      rw [aloneTree, process_of_load_error (s := ⟨pairTree, 0, []⟩) first]
    obtain ⟨s, s', tree, works⟩ := second_turn rfl alone fun name named => by
      rw [made, loadedName?_of_error later] at named
      cases named
    have same := works.eq_process.1
    rw [aloneResult, process_of_load_error (s := ⟨pairTree, 0, []⟩) second,
      process_of_load_error (by rw [tree, made]; exact later)] at same
    cases same

end Toolwright.Pipeline
