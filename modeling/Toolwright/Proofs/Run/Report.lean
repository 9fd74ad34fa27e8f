import Toolwright.Proofs.Run.DryRun

/-!
What a run tells. Its outcomes are those of the first descriptions of its list, and of all of them
if no failure ends it. The events go through the outcomes in order, and what they say about
references is what the reports of the outcomes say.
-/

namespace Toolwright

def RunEvent.isReferenceFailed : RunEvent → Bool
  | .referenceFailed _ => true
  | _ => false

/-- What is told about one description. The failures of its references are told before it fails. -/
inductive Tells : FileOutcome → List RunEvent → Prop
  | succeeded {file : Path} {r : FileReport}
      (numbered : r.references.map (·.index) = List.range r.references.length) :
      Tells ⟨file, .ok r⟩
        (.started file :: (r.references.filterMap (·.failure?)).map .referenceFailed)
  | failed {file : Path} {f : Failure} (failures : List Failure) :
      Tells ⟨file, .error f⟩
        (.started file :: (failures.map .referenceFailed ++ [.fileFailed file f]))

/-- How often the failure of a reference is told while working on the descriptions that succeed. -/
def toldReferences (outcomes : List FileOutcome) (calls : List (List RunEvent)) : Nat :=
  (((outcomes.zip calls).filter (·.1.isOk)).flatMap (·.2)).countP (·.isReferenceFailed)

@[simp] theorem FileOutcome.isOk_ok (file : Path) (r : FileReport) :
    (FileOutcome.mk file (.ok r)).isOk = true := rfl

@[simp] theorem FileOutcome.isOk_error (file : Path) (f : Failure) :
    (FileOutcome.mk file (.error f)).isOk = false := rfl

theorem RunReport.failedReferences_eq (report : RunReport) : report.failedReferences =
    ((report.outcomes.filterMap (·.result.toOption)).map (·.failedReferences)).sum := by
  unfold RunReport.failedReferences
  rw [← Nat.zero_add (List.sum _)]
  generalize 0 = n
  induction report.outcomes generalizing n with
  | nil => rfl
  | cons o rest ih =>
    obtain ⟨file, f | r⟩ := o
    · exact ih n
    · rw [List.foldl_cons, ih]
      exact Nat.add_assoc n r.failedReferences _

theorem FileReport.length_failures (r : FileReport) :
    (r.references.filterMap (·.failure?)).length = r.failedReferences := by
  unfold FileReport.failedReferences
  induction r.references with
  | nil => rfl
  | cons o rest ih =>
    obtain ⟨index, reference, path, _ | _ | f⟩ := o
    · exact ih
    · exact ih
    · exact congrArg (· + 1) ih

theorem Tells.countP {file : Path} {r : FileReport} {events : List RunEvent}
    (h : Tells ⟨file, .ok r⟩ events) :
    events.countP (·.isReferenceFailed) = r.failedReferences := by
  cases h with
  | succeeded _ =>
    rw [List.countP_cons_of_neg Bool.false_ne_true, List.countP_map, ← r.length_failures,
      List.countP_eq_length]
    exact fun _ _ => rfl

theorem toldReferences_eq {outcomes : List FileOutcome} {calls : List (List RunEvent)}
    (h : List.Forall₂ Tells outcomes calls) : toldReferences outcomes calls =
      ((outcomes.filterMap (·.result.toOption)).map (·.failedReferences)).sum := by
  induction h with
  | nil => rfl
  | @cons o events outcomes calls tells _ ih =>
    unfold toldReferences at ih ⊢
    obtain ⟨file, f | r⟩ := o
    · rw [List.zip_cons_cons, List.filter_cons_of_neg (by simp), ih,
        List.filterMap_cons_none rfl]
    · rw [List.zip_cons_cons, List.filter_cons_of_pos (by simp), List.flatMap_cons,
        List.countP_append, ih, tells.countP]
      rfl

namespace Pipeline

open Files (Tree)

variable {p : Pipeline} {s s' : RunState} {tool : Tool} {file : Path} {files : List Path}
  {t t' : Tree} {result : Except Failure FileReport} {inner : List RunEvent}
  {outcomes : List FileOutcome} {stopped : Bool}

theorem archiveReferences_numbered {references : List ReferenceOutcome}
    (h : p.archiveReferences t tool = (references, t')) :
    references.map (·.index) = List.range references.length := by
  have outlines := archiveReferences_outline h
  refine List.ext_getElem (by simp) fun i below _ => ?_
  rw [List.length_map] at below
  have there := congrArg (·[i]?) outlines
  rw [List.getElem?_map, List.getElem?_eq_getElem below] at there
  rw [List.getElem_map, List.getElem_range]
  split at there
  · rw [List.getElem?_mapIdx] at there
    obtain ⟨r, _, same⟩ := Option.map_eq_some_iff.1 there.symm
    exact (congrArg Prod.fst same).symm
  · cases there

theorem produce_tells (h : p.produce s tool = (result, inner, s')) :
    ∃ failures : List Failure, inner = failures.map .referenceFailed ∧ ∀ r, result = .ok r →
      failures = r.references.filterMap (·.failure?) ∧
        r.references.map (·.index) = List.range r.references.length := by
  unfold produce at h
  rcases generate : p.generate s tool with ⟨_ | generated, s₁⟩
  · rw [generate] at h
    cases h
    exact ⟨[], rfl, nofun⟩
  · rcases archive : p.archiveReferences s₁.tree tool with ⟨references, t₁⟩
    rcases save : Saving.save t₁ tool p.options.dryRun with ⟨_ | saved, t₂⟩
    all_goals
      simp only [generate, archive, save] at h
      cases h
      refine ⟨references.filterMap (·.failure?), rfl, ?_⟩
    · exact nofun
    · rintro r ⟨⟩
      exact ⟨rfl, archiveReferences_numbered archive⟩

theorem process_tells (h : p.process s file = (result, inner, s')) :
    Tells ⟨file, result⟩ (fileEvents file result inner) := by
  obtain ⟨failures, rfl, told⟩ : ∃ failures : List Failure, inner = failures.map .referenceFailed ∧
      ∀ r, result = .ok r → failures = r.references.filterMap (·.failure?) ∧
        r.references.map (·.index) = List.range r.references.length := by
    unfold process at h
    rcases load : Loading.load p.loadOptions s.tree file with ⟨_ | tool, t⟩
    · rw [load] at h
      cases h
      exact ⟨[], rfl, nofun⟩
    · simp only [load] at h
      split at h
      · cases h
        exact ⟨[], rfl, nofun⟩
      · exact produce_tells h
  cases result with
  | error f => exact .failed failures
  | ok r =>
    obtain ⟨rfl, numbered⟩ := told r rfl
    rw [fileEvents, List.append_nil]
    exact .succeeded numbered

theorem processAll_tells (p : Pipeline) (s : RunState) (files : List Path) :
    ∃ calls, List.Forall₂ Tells (p.processAll s files).outcomes calls ∧
      (p.processAll s files).events = calls.flatten := by
  induction files generalizing s with
  | nil => exact ⟨[], .nil, rfl⟩
  | cons file rest ih =>
    rcases process : p.process s file with ⟨result, inner, s₁⟩
    have tells := process_tells process
    simp only [processAll, process]
    split
    · exact ⟨[_], .cons tells .nil, List.flatten_singleton.symm⟩
    · obtain ⟨calls, later, told⟩ := ih s₁
      exact ⟨_ :: calls, .cons tells later, by rw [List.flatten_cons, told]⟩

theorem not_goesOn_iff (file : Path) : ¬ p.GoesOn result ↔
    p.options.failFast = true ∧ (FileOutcome.mk file result).isOk = false := by
  rw [← @stops_iff p file result, Bool.and_eq_true, Bool.not_eq_true', and_comm]

theorem Courses.listed (h : p.Courses s files outcomes stopped s') :
    outcomes.map (·.file) <+: files := by
  induction h with
  | done => exact List.prefix_refl _
  | stopped _ _ => exact ⟨_, rfl⟩
  | next _ _ _ ih => exact List.cons_prefix_cons.2 ⟨rfl, ih⟩

theorem Courses.whole (h : p.Courses s files outcomes stopped s') (goes : stopped = false) :
    outcomes.map (·.file) = files := by
  induction h with
  | done => rfl
  | stopped _ _ => cases goes
  | next _ _ _ ih => rw [List.map_cons, ih goes]

theorem Courses.ends (h : p.Courses s files outcomes stopped s') (stops : stopped = true) :
    p.options.failFast = true ∧ ∃ before last, outcomes = before ++ [last] ∧
      (∀ o ∈ before, o.isOk = true) ∧ last.isOk = false := by
  induction h with
  | done => cases stops
  | @stopped _ _ file _ result _ ends =>
    obtain ⟨fast, failed⟩ := (not_goesOn_iff file).1 ends
    exact ⟨fast, [], _, rfl, nofun, failed⟩
  | next _ goes _ ih =>
    obtain ⟨fast, before, last, rfl, fine, failed⟩ := ih stops
    have ok := goes.resolve_right (by rw [fast]; decide)
    exact ⟨fast, _ :: before, last, rfl, List.forall_mem_cons.2 ⟨ok, fine⟩, failed⟩

theorem Courses.fine (h : p.Courses s files outcomes stopped s') (goes : stopped = false)
    (fast : p.options.failFast = true) : ∀ o ∈ outcomes, o.isOk = true := by
  induction h with
  | done => exact nofun
  | stopped _ _ => cases goes
  | next _ on _ ih =>
    exact List.forall_mem_cons.2 ⟨on.resolve_right (by rw [fast]; decide), ih goes⟩

theorem Courses.stopped_iff (h : p.Courses s files outcomes stopped s') :
    stopped = true ↔ p.options.failFast = true ∧ ∃ o ∈ outcomes, o.isOk = false := by
  constructor
  · intro stops
    obtain ⟨fast, before, last, rfl, _, failed⟩ := h.ends stops
    exact ⟨fast, last, by simp, failed⟩
  · rintro ⟨fast, o, held, failed⟩
    refine Bool.eq_true_of_not_eq_false fun goes => ?_
    rw [h.fine goes fast o held] at failed
    cases failed

/-- A report and the events of a run agree with each other and with the list of descriptions. -/
structure Accounts (failFast : Bool) (files : List Path) (report : RunReport)
    (events : List RunEvent) : Prop where
  listed : report.outcomes.map (·.file) <+: files
  whole : report.stoppedEarly = false → report.outcomes.map (·.file) = files
  ends : report.stoppedEarly = true → ∃ before last, report.outcomes = before ++ [last] ∧
    (∀ o ∈ before, o.isOk = true) ∧ last.isOk = false
  stops : report.stoppedEarly = true ↔ failFast = true ∧ ∃ o ∈ report.outcomes, o.isOk = false
  fails : report.hasFailures = true ↔ ∃ o ∈ report.outcomes, o.isOk = false
  told : ∃ calls, List.Forall₂ Tells report.outcomes calls ∧
    events = calls.flatten ++ [.finished report.outcomes.length] ∧
    toldReferences report.outcomes calls = report.failedReferences

theorem RunReport.hasFailures_iff {report : RunReport}
    (stops : report.stoppedEarly = true → ∃ o ∈ report.outcomes, o.isOk = false) :
    report.hasFailures = true ↔ ∃ o ∈ report.outcomes, o.isOk = false := by
  have failed : 0 < report.failed ↔ ∃ o ∈ report.outcomes, o.isOk = false := by
    rw [Nat.pos_iff_ne_zero, ne_eq, RunReport.failed_eq_zero]
    simp
  rw [RunReport.hasFailures, Bool.or_eq_true, decide_eq_true_eq, failed]
  exact or_iff_left_of_imp stops

/-- The outcomes of a run are those of all descriptions or end with the first failure, its events go
through them in order, and the report counts what was told. -/
theorem runFiles_report (p : Pipeline) (t : Tree) (files : List Path) :
    Accounts p.options.failFast files (p.runFiles t files).1 (p.runFiles t files).2.1 := by
  have courses : p.Courses ⟨t, 0, []⟩ files (p.runFiles t files).1.outcomes
      (p.runFiles t files).1.stoppedEarly _ := courses_iff.2 ⟨_, rfl⟩
  obtain ⟨calls, tell, events⟩ := p.processAll_tells ⟨t, 0, []⟩ files
  refine ⟨courses.listed, courses.whole, fun stops => (courses.ends stops).2, courses.stopped_iff,
    RunReport.hasFailures_iff fun stops => (courses.stopped_iff.1 stops).2, calls, tell, ?_, ?_⟩
  · rw [runFiles, events]
  · rw [RunReport.failedReferences_eq]
    exact toldReferences_eq tell

end Pipeline

end Toolwright
