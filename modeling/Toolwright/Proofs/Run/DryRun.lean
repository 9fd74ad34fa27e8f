import Toolwright.Proofs.Discovery
import Toolwright.Proofs.Run.Course

/-!
Dry runs. A run leaves a description as it is until it comes to it, and the stages before saving
leave it as it was loaded. What is said about a description is therefore told by the files there
were at first, which are those that a dry run sees.
-/

namespace Toolwright

theorem RunReport.failed_eq_zero {report : RunReport} :
    report.failed = 0 ↔ ∀ o ∈ report.outcomes, o.isOk = true := by
  have bound := report.outcomes.length_filter_le FileOutcome.isOk
  have whole : (report.outcomes.filter FileOutcome.isOk).length = report.outcomes.length ↔
      ∀ o ∈ report.outcomes, o.isOk = true := List.length_filter_eq_length_iff
  rw [← whole]
  change report.outcomes.length - (report.outcomes.filter FileOutcome.isOk).length = 0 ↔ _
  omega

namespace Pipeline

open Files (Tree)

variable {p : Pipeline} {s s' d : RunState} {file dir site : Path} {files : List Path} {t t' : Tree}
  {r r' : FileReport} {outcomes outcomes' : List FileOutcome} {stopped : Bool} {parsed : Tool}
  {old : String}

def dry (p : Pipeline) : Pipeline := { p with options := { p.options with dryRun := true } }

/-- The reports say the same but for what was written and what became of the references. -/
structure Foretells (r r' : FileReport) : Prop where
  tool : r'.tool = r.tool
  generated : r'.generated = r.generated
  references : r'.references.map outline = r.references.map outline
  target : r'.saved.target = r.saved.target
  path : r'.saved.path = r.saved.path
  oldLines : r'.saved.oldLines = r.saved.oldLines
  freshLines : r'.saved.freshLines = r.saved.freshLines

theorem Produces.dry (wrapper : p.renderer = .wrapper)
    (described : Describes s.tree file old parsed)
    (h : p.Produces s (p.placed file parsed) (.ok r) s') (same : d.tree.readText file = .ok old) :
    ∃ r' d', p.dry.Produces d (p.placed file parsed) (.ok r') d' ∧ d'.tree = d.tree ∧
      d'.owners = d.owners ∧ Foretells r r' := by
  cases h with
  | @finished text _ generated _ references t₂ saved _ render write archive save =>
    have read : t₂.readText (p.placed file parsed).definitionFile = .ok old :=
      (described.before_save (plain_of_wrapper wrapper) write archive).2
    obtain ⟨written, rfl⟩ := eq_verdict_of_save read save
    obtain ⟨calls, checked⟩ :=
      checked_wrapper wrapper s.calls (p.placed file parsed) p.options.verifyDeterminism
    obtain ⟨calls', checked'⟩ :=
      checked_wrapper wrapper d.calls (p.placed file parsed) p.options.verifyDeterminism
    rw [render] at checked
    rw [← Except.ok.inj (Prod.mk.inj checked).1] at checked'
    rcases archive' : p.dry.archiveReferences d.tree (p.placed file parsed) with ⟨references', t'⟩
    obtain rfl : t' = d.tree := by
      unfold archiveReferences at archive'
      split at archive'
      · exact (Prod.mk.inj archive').2.symm
      · exact (Prod.mk.inj archive').2.symm
    have write' : p.dry.writeGenerated d.tree (p.placed file parsed) text =
        (.ok generated, d.tree) := by
      rw [generated_of_write write]
      unfold writeGenerated
      exact if_pos (show p.dry.options.dryRun = true from rfl)
    have read' : d.tree.readText (p.placed file parsed).definitionFile = .ok old := same
    have save' : Saving.save d.tree (p.placed file parsed) p.dry.options.dryRun =
        (.ok (verdict (p.placed file parsed) old false), d.tree) := by
      rw [save_eq read', if_pos (.inl rfl)]
    refine ⟨_, _, .finished checked' write' archive' save', rfl, rfl, rfl, rfl, ?_, rfl, rfl,
      rfl, rfl⟩
    rw [archiveReferences_outline archive, archiveReferences_outline archive']
    rfl

theorem Works.dry (wrapper : p.renderer = .wrapper) (h : p.Works s file (.ok r) s')
    (same : d.tree.readText file = s.tree.readText file) (owners : d.owners = s.owners) :
    ∃ r' d', p.dry.Works d file (.ok r') d' ∧ d'.tree = d.tree ∧ d'.owners = s'.owners ∧
      Foretells r r' := by
  cases h with
  | produced load free produces =>
    obtain ⟨parsed, old, described, rfl, made⟩ := load_eq_ok.1 load
    have described' : Describes d.tree file old parsed := ⟨same.trans described.1, described.2⟩
    have load' : Loading.load p.dry.loadOptions d.tree file =
        (.ok (p.placed file parsed), d.tree) :=
      load_eq_ok.2 ⟨parsed, old, described', rfl, rfl⟩
    obtain ⟨r', d', produces', tree, owned, foretells⟩ := produces.dry wrapper (described.made made)
      (d := { d with owners := ((p.placed file parsed).name, file) :: d.owners }) described'.1
    refine ⟨r', d', .produced load' (by rw [owners]; exact free) produces', tree, ?_, foretells⟩
    rw [owned, owners]
    cases produces
    rfl

/-- Two outcomes for one description, of which the second foretells the first. -/
def Agrees (o o' : FileOutcome) : Prop :=
  o'.file = o.file ∧ ∃ r r', o.result = .ok r ∧ o'.result = .ok r' ∧ Foretells r r'

theorem isOk_of_agrees (h : List.Forall₂ Agrees outcomes outcomes') :
    ∀ o ∈ outcomes', o.isOk = true := by
  induction h with
  | nil => nofun
  | cons agrees _ ih =>
    obtain ⟨_, _, _, _, ok, _⟩ := agrees
    exact List.forall_mem_cons.2 ⟨by simp [FileOutcome.isOk, ok, Except.toOption], ih⟩

theorem Courses.dry (wrapper : p.renderer = .wrapper) (h : p.Courses s files outcomes stopped s')
    (succeeded : ∀ o ∈ outcomes, o.isOk = true) (nodup : files.Nodup)
    (described : ∀ file ∈ files, DescriptionIn site file)
    (there : ∀ file ∈ files, s.tree.isFile file = true)
    (same : ∀ file ∈ files, d.tree.readText file = s.tree.readText file)
    (owners : d.owners = s.owners) :
    ∃ outcomes' d', p.dry.Courses d files outcomes' stopped d' ∧ d'.tree = d.tree ∧
      List.Forall₂ Agrees outcomes outcomes' := by
  induction h generalizing d with
  | done => exact ⟨[], d, .done, rfl, .nil⟩
  | stopped works ends =>
    exact absurd (.inl (succeeded _ List.mem_cons_self)) ends
  | @next s s₁ s' file rest result outcomes stopped works goes later ih =>
    obtain ⟨ok, succeed⟩ := List.forall_mem_cons.1 succeeded
    obtain ⟨apart, nodup⟩ := List.nodup_cons.1 nodup
    obtain ⟨own, others⟩ := List.forall_mem_cons.1 described
    cases result with
    | error f => cases ok
    | ok r =>
      obtain ⟨r', d', works', tree, owned, foretells⟩ :=
        works.dry wrapper (same file List.mem_cons_self) owners
      -- the descriptions that are left are as they were, in the real run and in the dry one
      have kept := works.locate_eq wrapper own others apart
        fun other held => there other (List.mem_cons_of_mem _ held)
      obtain ⟨outcomes', d'', later', tree', agree⟩ := ih succeed nodup others
        (fun other held => by
          rw [Files.Tree.isFile_congr (kept other held)]
          exact there other (List.mem_cons_of_mem _ held))
        (fun other held => by
          rw [Files.Tree.readText_congr (kept other held), tree]
          exact same other (List.mem_cons_of_mem _ held)) owned
      exact ⟨_, d'', .next works' (.inl rfl) later', tree'.trans tree,
        .cons ⟨rfl, r, r', rfl, rfl, foretells⟩ agree⟩

/-- When no description fails in a run over a directory, none fails in a dry run from the same
files; that run changes nothing and foretells every outcome. -/
theorem run_dry (wrapper : p.renderer = .wrapper) (wellFormed : t.WellFormed)
    {report : RunReport} {events : List RunEvent} (ran : p.run t dir = .ok (report, events, t'))
    (succeeded : report.failed = 0) :
    ∃ report' events', p.dry.run t dir = .ok (report', events', t) ∧ report'.failed = 0 ∧
      report'.stoppedEarly = report.stoppedEarly ∧
      List.Forall₂ Agrees report.outcomes report'.outcomes := by
  obtain ⟨files, s', discovered, courses, _⟩ := run_eq_ok.1 ⟨events, ran⟩
  obtain ⟨nodup, site, each⟩ := Discovery.discover_spec wellFormed discovered
  obtain ⟨outcomes', d, courses', tree, agree⟩ := courses.dry (d := ⟨t, 0, []⟩) wrapper
    (RunReport.failed_eq_zero.1 succeeded) nodup (fun file held => (each file held).1)
    (fun file held => (each file held).2) (fun _ _ => rfl) rfl
  obtain ⟨events', ran'⟩ : ∃ events', p.dry.run t dir =
      .ok (⟨outcomes', true, report.stoppedEarly⟩, events', t) :=
    run_eq_ok.2 ⟨files, d, discovered, courses', tree, rfl⟩
  exact ⟨_, events', ran', RunReport.failed_eq_zero.2 (isOk_of_agrees agree), rfl, agree⟩

theorem run_dry_box : ∃ report events,
    boxPipeline.dry.run Loading.boxTree ⟨"."⟩ = .ok (report, events, Loading.boxTree) ∧
      List.Forall₂ Agrees [⟨Loading.boxFile, .ok boxReport⟩] report.outcomes := by
  obtain ⟨_, ran⟩ := run_box
  obtain ⟨report, events, ran', _, _, agree⟩ := run_dry rfl Discovery.wellFormed_box ran (by rfl)
  exact ⟨report, events, ran', agree⟩

/-- What is said in a dry run about the references of a tool and about saving it. -/
def Unwritten (p : Pipeline) (r : FileReport) : Prop :=
  r.saved.written = false ∧
    if p.options.references then ∀ o ∈ r.references, o.status = .planned else r.references = []

theorem archiveReferences_of_dryRun {tool : Tool} {references : List ReferenceOutcome}
    (quiet : p.options.dryRun = true) (h : p.archiveReferences t tool = (references, t')) :
    t' = t ∧
      if p.options.references then ∀ o ∈ references, o.status = .planned else references = [] := by
  unfold archiveReferences at h
  cases wanted : p.options.references with
  | false =>
    simp only [wanted, Bool.not_false, if_true] at h
    cases h
    exact ⟨rfl, rfl⟩
  | true =>
    simp only [wanted, Bool.not_true, Bool.false_eq_true, if_false, quiet, if_true] at h
    cases h
    refine ⟨rfl, fun o held => ?_⟩
    obtain ⟨i, _, rfl⟩ := List.mem_mapIdx.1 held
    rfl

theorem save_of_dryRun {tool : Tool} {saved : Except Failure Saving.Outcome}
    (h : Saving.save t tool true = (saved, t')) :
    t' = t ∧ ∀ outcome, saved = .ok outcome → outcome.written = false := by
  unfold Saving.save Saving.writeBack at h
  split at h
  · cases h
    exact ⟨rfl, nofun⟩
  · simp only [true_or, if_true] at h
    cases h
    exact ⟨rfl, fun _ ok => by cases ok; rfl⟩

theorem Produces.of_dryRun {tool : Tool} {result : Except Failure FileReport}
    (quiet : p.options.dryRun = true) (h : p.Produces s tool result s') :
    s'.tree = s.tree ∧ ∀ r, result = .ok r → p.Unwritten r := by
  have unwritten : ∀ {text generated t₁}, p.writeGenerated s.tree tool text = (generated, t₁) →
      t₁ = s.tree := by
    intro text generated t₁ write
    simp only [writeGenerated, quiet, if_true] at write
    exact (Prod.mk.inj write).2.symm
  cases h with
  | unstable render => exact ⟨rfl, nofun⟩
  | unwritten render write => exact ⟨unwritten write, nofun⟩
  | unsaved render write archive save =>
    obtain rfl := unwritten write
    obtain ⟨rfl, _⟩ := archiveReferences_of_dryRun quiet archive
    rw [quiet] at save
    exact ⟨(save_of_dryRun save).1, nofun⟩
  | finished render write archive save =>
    obtain rfl := unwritten write
    obtain ⟨rfl, references⟩ := archiveReferences_of_dryRun quiet archive
    rw [quiet] at save
    obtain ⟨same, written⟩ := save_of_dryRun save
    refine ⟨same, fun r ok => ?_⟩
    cases ok
    exact ⟨written _ rfl, references⟩

theorem Works.of_dryRun {result : Except Failure FileReport} (quiet : p.options.dryRun = true)
    (h : p.Works s file result s') : s'.tree = s.tree ∧ ∀ r, result = .ok r → p.Unwritten r := by
  have unmade : ∀ directory, Loading.makeDirectory p.loadOptions s.tree directory =
      (.ok (), s.tree) := by
    intro directory
    simp [Loading.makeDirectory, loadOptions, quiet]
  cases h with
  | unloaded load =>
    rcases load_error load with ⟨_, rfl⟩ | ⟨_, _, _, _, made⟩
    · exact ⟨rfl, by rintro _ ⟨⟩⟩
    · rw [unmade] at made
      cases made
  | taken load _ =>
    obtain ⟨_, _, _, _, made⟩ := load_eq_ok.1 load
    rw [unmade] at made
    cases made
    exact ⟨rfl, by rintro _ ⟨⟩⟩
  | produced load _ produces =>
    obtain ⟨_, _, _, _, made⟩ := load_eq_ok.1 load
    obtain ⟨_, rfl⟩ := Prod.mk.inj ((unmade _).symm.trans made)
    have both := produces.of_dryRun quiet
    exact both

theorem Courses.of_dryRun (quiet : p.options.dryRun = true)
    (h : p.Courses s files outcomes stopped s') :
    s'.tree = s.tree ∧ ∀ o ∈ outcomes, ∀ r, o.result = .ok r → p.Unwritten r := by
  induction h with
  | done => exact ⟨rfl, nofun⟩
  | stopped works _ =>
    obtain ⟨same, unwritten⟩ := works.of_dryRun quiet
    exact ⟨same, List.forall_mem_singleton.2 unwritten⟩
  | next works _ _ ih =>
    obtain ⟨same, unwritten⟩ := works.of_dryRun quiet
    exact ⟨ih.1.trans same, List.forall_mem_cons.2 ⟨unwritten, ih.2⟩⟩

/-- A dry run leaves all files and directories as they are, whatever becomes of the descriptions.
It reports that nothing was written, and that every reference that it looks at is planned. -/
theorem runFiles_of_dryRun (quiet : p.options.dryRun = true) (t : Tree) (files : List Path) :
    (p.runFiles t files).2.2 = t ∧
      ∀ o ∈ (p.runFiles t files).1.outcomes, ∀ r, o.result = .ok r →
        r.saved.written = false ∧
          if p.options.references then ∀ x ∈ r.references, x.status = .planned
          else r.references = [] := by
  have courses : p.Courses ⟨t, 0, []⟩ files _ _ _ := courses_iff.2 ⟨_, rfl⟩
  exact courses.of_dryRun quiet

def listedFile : Path := ⟨"demo.json"⟩

def listedText : String := "[\"demo\",null,null,null,null,null,[\"a#//p\"]]"

def listedTree : Tree := ⟨[], [(["demo.json"], .file listedText.toUTF8)]⟩

theorem runFiles_of_dryRun_listed :
    (boxPipeline.dry.runFiles listedTree [listedFile, listedFile, ⟨"gone.json"⟩]).2.2 = listedTree ∧
      ∃ r rest, (boxPipeline.dry.runFiles listedTree
          [listedFile, listedFile, ⟨"gone.json"⟩]).1.outcomes = ⟨listedFile, .ok r⟩ :: rest ∧
        rest.map FileOutcome.isOk = [false, false] ∧ r.saved.written = false ∧
        r.references.map (·.reference) = [⟨"a#//p"⟩] ∧ ∀ x ∈ r.references, x.status = .planned := by
  obtain ⟨same, unwritten⟩ :=
    runFiles_of_dryRun (p := boxPipeline.dry) rfl listedTree [listedFile, listedFile, ⟨"gone.json"⟩]
  obtain ⟨r, rest, whole, failed, references⟩ : ∃ r rest, (boxPipeline.dry.runFiles listedTree
      [listedFile, listedFile, ⟨"gone.json"⟩]).1.outcomes = ⟨listedFile, .ok r⟩ :: rest ∧
      rest.map FileOutcome.isOk = [false, false] ∧ r.references.map (·.reference) = [⟨"a#//p"⟩] :=
    ⟨_, _, rfl, rfl, rfl⟩
  obtain ⟨written, planned⟩ := unwritten _ (whole ▸ List.mem_cons_self) r rfl
  exact ⟨same, r, rest, whole, failed, written, references, planned⟩

end Pipeline

end Toolwright
