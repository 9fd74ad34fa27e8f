import Toolwright.Proofs.Run.Course

/-!
The turns of a run. The description at an index is worked on in the state that the ones before it
leave. A name belongs to the first description that is loaded under it, whatever becomes of that one
afterwards, and every later one that is loaded under the same name fails for it.
-/

namespace Toolwright.Pipeline

open Files (Tree)

variable {p : Pipeline} {s s₁ s' : RunState} {t t' : Tree} {file owner : Path} {files : List Path}
  {result : Except Failure FileReport} {outcomes : List FileOutcome} {stopped : Bool}
  {o : FileOutcome} {name : String} {k : Nat}

def stateAt (p : Pipeline) (s : RunState) (files : List Path) (k : Nat) : RunState :=
  (p.processAll s (files.take k)).state

@[simp] theorem stateAt_zero (p : Pipeline) (s : RunState) (files : List Path) :
    p.stateAt s files 0 = s := rfl

theorem stateAt_one (works : p.Works s file result s') (rest : List Path) :
    p.stateAt s (file :: rest) 1 = s' := by
  obtain ⟨events, process⟩ := works_iff.1 works
  simp only [stateAt, List.take_succ_cons, List.take_zero, processAll, process]
  split <;> rfl

theorem stateAt_succ (works : p.Works s file result s₁) (goes : p.GoesOn result) (rest : List Path)
    (k : Nat) : p.stateAt s (file :: rest) (k + 1) = p.stateAt s₁ rest k := by
  obtain ⟨events, process⟩ := works_iff.1 works
  simp only [stateAt, List.take_succ_cons, processAll, process]
  rw [if_neg (fun stops => stops_iff.1 stops goes)]

theorem Courses.turn (h : p.Courses s files outcomes stopped s') (held : outcomes[k]? = some o) :
    files[k]? = some o.file ∧
      p.Works (p.stateAt s files k) o.file o.result (p.stateAt s files (k + 1)) := by
  induction h generalizing k with
  | done => cases held
  | stopped works _ =>
    cases k with
    | zero =>
      cases held
      rw [stateAt_one works]
      exact ⟨rfl, works⟩
    | succ k => cases held
  | next works goes _ ih =>
    cases k with
    | zero =>
      cases held
      rw [stateAt_one works]
      exact ⟨rfl, works⟩
    | succ k =>
      rw [stateAt_succ works goes, stateAt_succ works goes]
      exact ih held

theorem Courses.state_eq (h : p.Courses s files outcomes stopped s') :
    p.stateAt s files outcomes.length = s' := by
  induction h with
  | done => rfl
  | stopped works _ => exact stateAt_one works _
  | next works goes _ ih =>
    rw [List.length_cons, stateAt_succ works goes]
    exact ih

/-- The name under which a description is loaded, if it is loaded. -/
def loadedName? (p : Pipeline) (t : Tree) (file : Path) : Option String :=
  (Loading.load p.loadOptions t file).1.toOption.map (·.name)

/-- The name under which the description at an index is loaded when a run comes to it. -/
def nameAt? (p : Pipeline) (t : Tree) (files : List Path) (k : Nat) : Option String :=
  files[k]?.bind (p.loadedName? (p.stateAt ⟨t, 0, []⟩ files k).tree)

theorem loadedName?_of_error {f : Failure}
    (load : Loading.load p.loadOptions t file = (.error f, t')) :
    p.loadedName? t file = none := by
  rw [loadedName?, load]
  rfl

theorem loadedName?_of_ok {tool : Tool}
    (load : Loading.load p.loadOptions t file = (.ok tool, t')) :
    p.loadedName? t file = some tool.name := by
  rw [loadedName?, load]
  rfl

theorem Works.lookup_owners (h : p.Works s file result s') (name : String) :
    s'.owners.lookup name = (s.owners.lookup name).or
      (if p.loadedName? s.tree file = some name then some file else none) := by
  cases h with
  | unloaded load => simp [loadedName?_of_error load]
  | @taken tool _ owner load owned =>
    rw [loadedName?_of_ok load]
    by_cases same : tool.name = name
    · simp [← same, owned]
    · simp [same]
  | @produced tool _ _ _ load free produces =>
    have after : s'.owners = (tool.name, file) :: s.owners := by cases produces <;> rfl
    rw [after, loadedName?_of_ok load, List.lookup_cons]
    by_cases same : name = tool.name
    · simp [same, free]
    · have apart : (name == tool.name) = false := beq_eq_false_iff_ne.2 same
      simp [apart, Ne.symm same]

theorem Works.loadedName?_eq {r : FileReport} (h : p.Works s file (.ok r) s') :
    p.loadedName? s.tree file = some r.tool := by
  cases h with
  | produced load _ produces =>
    rw [loadedName?_of_ok load]
    cases produces
    rfl

theorem load_ne_nameTaken (load : Loading.load p.loadOptions t file = (.error (.load file
    (.nameTaken name owner)), t')) : False := by
  unfold Loading.load Loading.readValid at load
  split at load
  · rename_i invalid
    repeat' split at invalid
    all_goals cases invalid
    all_goals cases load
  · dsimp only at load
    split at load <;> cases load

theorem Produces.ne_load {tool : Tool} {reason : Reason} (h : p.Produces s tool result s') :
    result ≠ .error (.load file reason) := by
  have unsaved : ∀ {t t' : Tree} {f : Failure},
      Saving.save t tool p.options.dryRun = (.error f, t') → f ≠ .load file reason := by
    intro t t' f save
    unfold Saving.save Saving.writeBack at save
    dsimp only at save
    repeat' split at save
    all_goals cases save
    all_goals rintro ⟨⟩
  have unwritten : ∀ {t t' : Tree} {text : String} {f : Failure},
      p.writeGenerated t tool text = (.error f, t') → f ≠ .load file reason := by
    intro t t' text f write
    unfold writeGenerated at write
    dsimp only at write
    repeat' split at write
    all_goals cases write
    rintro ⟨⟩
  cases h with
  | unstable render =>
    unfold Renderer.checked at render
    dsimp only at render
    repeat' split at render
    all_goals cases render
    rintro ⟨⟩
  | unwritten _ write =>
    rintro ⟨⟩
    exact unwritten write rfl
  | unsaved _ _ _ save =>
    rintro ⟨⟩
    exact unsaved save rfl
  | finished _ _ _ _ => rintro ⟨⟩

theorem Works.ne_unread {old : String} {parsed : Tool} {fault : Files.Fault}
    (h : p.Works s file result s')
    (described : Describes s.tree file old parsed) :
    result ≠ .error (.load file (.fault fault)) := by
  cases h with
  | unloaded load =>
    rintro ⟨⟩
    simp only [Loading.load, Loading.readValid_eq_ok.2 ⟨old, described⟩] at load
    split at load <;> cases load
  | taken _ _ => rintro ⟨⟩
  | produced _ _ produces => exact produces.ne_load

theorem Works.nameTaken_iff (h : p.Works s file result s') :
    result = .error (.load file (.nameTaken name owner)) ↔
      p.loadedName? s.tree file = some name ∧ s.owners.lookup name = some owner := by
  cases h with
  | unloaded load =>
    rw [loadedName?_of_error load]
    refine ⟨?_, fun named => nomatch named.1⟩
    rintro ⟨⟩
    exact (load_ne_nameTaken load).elim
  | taken load owned =>
    rw [loadedName?_of_ok load]
    constructor
    · rintro ⟨⟩
      exact ⟨rfl, owned⟩
    · rintro ⟨⟨⟩, again⟩
      cases owned.symm.trans again
      rfl
  | produced load free produces =>
    rw [loadedName?_of_ok load]
    refine ⟨fun taken => absurd taken produces.ne_load, ?_⟩
    rintro ⟨⟨⟩, owned⟩
    exact nomatch free.symm.trans owned

section Owners

variable {p : Pipeline} {t : Tree} {files : List Path} {outcomes : List FileOutcome}
  {stopped : Bool} {s' : RunState} (h : p.Courses ⟨t, 0, []⟩ files outcomes stopped s') {k : Nat}
  {name : String}

include h

theorem Courses.nameAt?_eq {o : FileOutcome} (held : outcomes[k]? = some o) :
    p.nameAt? t files k = p.loadedName? (p.stateAt ⟨t, 0, []⟩ files k).tree o.file := by
  rw [nameAt?, (h.turn held).1]
  rfl

/-- A name belongs to the first description that was loaded under it. -/
theorem Courses.lookup_stateAt (among : k ≤ outcomes.length) :
    (p.stateAt ⟨t, 0, []⟩ files k).owners.lookup name =
      ((List.range k).find? fun j => p.nameAt? t files j = some name).bind (files[·]?) := by
  induction k with
  | zero => rfl
  | succ k ih =>
    have held : outcomes[k]? = some outcomes[k] := List.getElem?_eq_getElem among
    obtain ⟨there, works⟩ := h.turn held
    rw [works.lookup_owners, ih (Nat.le_of_succ_le among), List.range_succ, List.find?_append,
      ← h.nameAt?_eq held]
    cases first : (List.range k).find? fun j => p.nameAt? t files j = some name with
    | none =>
      by_cases own : p.nameAt? t files k = some name
      · simp [own, there]
      · simp [own]
    | some j =>
      have named : p.nameAt? t files j = some name := by simpa using List.find?_some first
      obtain ⟨other, there', _⟩ := Option.bind_eq_some_iff.1 named
      simp [there']

theorem Courses.lookup_eq_some_iff {owner : Path} (among : k ≤ outcomes.length) :
    (p.stateAt ⟨t, 0, []⟩ files k).owners.lookup name = some owner ↔
      ∃ j < k, files[j]? = some owner ∧ p.nameAt? t files j = some name ∧
        ∀ i < j, p.nameAt? t files i ≠ some name := by
  rw [h.lookup_stateAt among, Option.bind_eq_some_iff]
  simp only [List.find?_range_eq_some, decide_eq_true_eq, List.mem_range, Bool.not_eq_true',
    decide_eq_false_iff_not]
  exact ⟨fun ⟨j, ⟨named, below, first⟩, there⟩ => ⟨j, below, there, named, first⟩,
    fun ⟨j, below, there, named, first⟩ => ⟨j, ⟨named, below, first⟩, there⟩⟩

theorem Courses.lookup_eq_none_iff (among : k ≤ outcomes.length) :
    (p.stateAt ⟨t, 0, []⟩ files k).owners.lookup name = none ↔
      ∀ j < k, p.nameAt? t files j ≠ some name := by
  rw [h.lookup_stateAt among]
  constructor
  · intro none j below named
    cases first : (List.range k).find? fun j => p.nameAt? t files j = some name with
    | none =>
      have other := List.find?_eq_none.1 first j (List.mem_range.2 below)
      simp [named] at other
    | some i =>
      have named' : p.nameAt? t files i = some name := by simpa using List.find?_some first
      obtain ⟨other, there, _⟩ := Option.bind_eq_some_iff.1 named'
      simp [first, there] at none
  · intro apart
    have none : (List.range k).find? (fun j => p.nameAt? t files j = some name) = none := by
      rw [List.find?_eq_none]
      intro j below
      simpa using apart j (List.mem_range.1 below)
    rw [none]
    rfl

end Owners

/-- The description at an index is loaded under the name and is not refused for it. -/
def GetsName (p : Pipeline) (t : Tree) (files : List Path) (name : String) (k : Nat) : Prop :=
  p.nameAt? t files k = some name ∧ ∃ o, (p.runFiles t files).1.outcomes[k]? = some o ∧
    ∀ owner, o.result ≠ .error (.load o.file (.nameTaken name owner))

theorem Courses.getsName_iff
    (h : p.Courses ⟨t, 0, []⟩ files (p.runFiles t files).1.outcomes stopped s')
    (held : (p.runFiles t files).1.outcomes[k]? = some o) :
    p.GetsName t files name k ↔ p.nameAt? t files k = some name ∧
      ∀ j < k, p.nameAt? t files j ≠ some name := by
  have among : k ≤ (p.runFiles t files).1.outcomes.length :=
    Nat.le_of_lt (List.getElem?_eq_some_iff.1 held).1
  rw [← h.lookup_eq_none_iff among, GetsName, and_congr_right_iff]
  intro named
  rw [h.nameAt?_eq held] at named
  have refused : ∀ owner, o.result = .error (.load o.file (.nameTaken name owner)) ↔
      (p.stateAt ⟨t, 0, []⟩ files k).owners.lookup name = some owner := by
    intro owner
    rw [(h.turn held).2.nameTaken_iff, and_iff_right named]
  simp only [held, Option.some.injEq, exists_eq_left', ne_eq, refused,
    Option.eq_none_iff_forall_ne_some]

/-- A description fails because its name is taken exactly when an earlier one of the run was loaded
under that name, and it is told the first such one. So at most one description gets a name, and the
tools that are gone through to the end have different names. -/
theorem runFiles_nameTaken (p : Pipeline) (t : Tree) (files : List Path) :
    (∀ k o, (p.runFiles t files).1.outcomes[k]? = some o → files[k]? = some o.file ∧
      ∀ name owner, o.result = .error (.load o.file (.nameTaken name owner)) ↔
        p.nameAt? t files k = some name ∧ ∃ j < k, files[j]? = some owner ∧
          p.nameAt? t files j = some name ∧ ∀ i < j, p.nameAt? t files i ≠ some name) ∧
    (∀ name j k, p.GetsName t files name j → p.GetsName t files name k → j = k) ∧
    ((p.runFiles t files).1.outcomes.filterMap (·.result.toOption)).Pairwise (·.tool ≠ ·.tool) := by
  have courses : p.Courses ⟨t, 0, []⟩ files (p.runFiles t files).1.outcomes _ _ :=
    courses_iff.2 ⟨_, rfl⟩
  -- of two that get one name the later one would find it in use
  have once : ∀ name j k, p.GetsName t files name j → p.GetsName t files name k → j = k := by
    intro name j k first second
    obtain ⟨_, o, held, _⟩ := id first
    obtain ⟨_, o', held', _⟩ := id second
    obtain ⟨named, alone⟩ := (courses.getsName_iff held).1 first
    obtain ⟨named', alone'⟩ := (courses.getsName_iff held').1 second
    rcases Nat.lt_trichotomy j k with before | same | behind
    · exact absurd named (alone' j before)
    · exact same
    · exact absurd named' (alone k behind)
  refine ⟨fun k o held => ?_, once, ?_⟩
  · obtain ⟨there, works⟩ := courses.turn held
    refine ⟨there, fun name owner => ?_⟩
    rw [works.nameTaken_iff, ← courses.nameAt?_eq held, courses.lookup_eq_some_iff]
    exact Nat.le_of_lt (List.getElem?_eq_some_iff.1 held).1
  · have gets : ∀ k o r, (p.runFiles t files).1.outcomes[k]? = some o → o.result.toOption = some r →
        p.GetsName t files r.tool k := by
      intro k o r held ok
      obtain ⟨_, works⟩ := courses.turn held
      refine ⟨?_, o, held, fun owner refused => by rw [refused] at ok; cases ok⟩
      rw [courses.nameAt?_eq held]
      cases result : o.result with
      | error f =>
        rw [result] at ok
        cases ok
      | ok r' =>
        rw [result] at ok works
        cases ok
        exact works.loadedName?_eq
    rw [List.pairwise_filterMap, List.pairwise_iff_getElem]
    intro i j below below' before r ok r' ok' same
    have both := once r.tool i j (gets i _ r (List.getElem?_eq_getElem below) ok)
      (same ▸ gets j _ r' (List.getElem?_eq_getElem below') ok')
    omega

end Toolwright.Pipeline
