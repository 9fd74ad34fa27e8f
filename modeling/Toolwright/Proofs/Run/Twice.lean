import Toolwright.Proofs.Run.Again

/-!
Running a directory twice. A run makes no new descriptions, so the second one has the same ones. It
comes to the same ends and leaves everything as the first one left it, but for the wrappers of tools
with read-only properties.
-/

namespace Toolwright.Pipeline

open Files (Entry IsName Location Tree)
open Files.Tree (Extends Leads Level Within)

variable {p : Pipeline} {s s' : RunState} {t t₁ : Tree} {file site dir : Path} {files : List Path}
  {parsed : Tool} {old : String} {outcomes : List FileOutcome} {stopped : Bool} {x : Product}
  {at_ : Location}

/-- In a run over the descriptions the name goes to this one. -/
def Owns (p : Pipeline) (t : Tree) (files : List Path) (name : String) (file : Path) : Prop :=
  (p.processAll ⟨t, 0, []⟩ files).state.owners.lookup name = some file

theorem Courses.owns_iff (h : p.Courses ⟨t, 0, []⟩ files outcomes stopped s') {name : String} :
    p.Owns t files name file ↔ s'.owners.lookup name = some file := by
  obtain ⟨events, all⟩ := courses_iff.1 h
  rw [Owns, all]

/-- The place of the wrapper of a tool with read-only properties that a run from `t` to `t₁` worked
on. -/
def MadeAnew (p : Pipeline) (t : Tree) (files : List Path) (t₁ : Tree) (at_ : Location) : Prop :=
  ∃ file ∈ files, ∃ old parsed, Describes t file old parsed ∧ p.Owns t files parsed.name file ∧
    ¬ parsed.AllSettable ∧ Leads t₁ (p.productPath file parsed .wrapper) at_

theorem MadeAnew.tool (h : p.MadeAnew t files t₁ at_) : ∃ parsed : Tool, IsName parsed.name := by
  obtain ⟨_, _, _, parsed, described, _⟩ := h
  exact ⟨parsed, described.isName.1⟩

section Anew

variable (wrapper : p.renderer = .wrapper) (inSite : ∀ file ∈ files, DescriptionIn site file)
  (among : file ∈ files) (leads : Leads t₁ (p.productPath file parsed x) at_)

include wrapper inSite among leads

theorem MadeAnew.lastOf_eq (name : IsName parsed.name) (h : p.MadeAnew t files t₁ at_) :
    x.lastOf = Product.lastOf .wrapper := by
  obtain ⟨file', among', old', parsed', described, _, _, leads'⟩ := h
  exact lastOf_eq_of_meets wrapper (inSite file among) (inSite file' among') name
    described.isName.1 (.inr ⟨at_, leads, leads'⟩)

theorem MadeAnew.not_allSettable (described : Describes t file old parsed)
    (owns : p.Owns t files parsed.name file) (h : p.MadeAnew t files t₁ at_) :
    ¬ parsed.AllSettable := by
  obtain ⟨file', among', old', parsed', described', owns', readOnly, leads'⟩ := h
  obtain ⟨rfl, _⟩ := eq_of_meets wrapper (inSite file among) (inSite file' among')
    described.isName.1 described'.isName.1
    (fun _ _ same => Option.some.inj (owns.symm.trans (same ▸ owns')))
    (.inr ⟨at_, leads, leads'⟩)
  obtain ⟨_, rfl⟩ := described.unique described'
  exact readOnly

end Anew

theorem Courses.noNewDescription (wrapper : p.renderer = .wrapper)
    (h : p.Courses s files outcomes stopped s') (inSite : ∀ file ∈ files, DescriptionIn site file)
    (older : ∀ file ∈ files, s.tree.isFile file = true) :
    Discovery.NoNewDescription s.tree s'.tree := by
  have plain := plain_of_wrapper wrapper
  have within := h.within plain
  intro above name content json there
  by_cases changed : s'.tree.get? (above ++ [name]) = s.tree.get? (above ++ [name])
  · exact ⟨content, changed ▸ there⟩
  · obtain ⟨file, s₁, comes, parsed, old, described, made | ⟨_, x, _, leads⟩⟩ :=
      within.changed _ changed
    · rw [made.directory] at there
      cases there
    · obtain ⟨n, isName, json', rfl⟩ := inSite file comes.mem
      obtain ⟨base, _, whole⟩ := Product.above_of_leads described.isName.1 isName plain leads
      -- of the products only the description ends like one, and it was there before
      have last : name = x.name p.renderer.extension n := by
        have same := congrArg List.getLast? whole
        rw [List.getLast?_append, List.getLast?_append, Product.getLast?_tail] at same
        exact Option.some.inj same
      have ends : name.toList.getLast? = some x.lastOf := by
        rw [last, wrapper]
        exact Product.getLast?_name json' x
      have own : name.toList.getLast? = some 'n' := Product.getLast?_name json .description
      rw [own] at ends
      obtain rfl : x = .description := by
        cases x with
        | description => rfl
        | wrapper => cases ends
        | archive i => cases ends
        | sibling => cases ends
      obtain ⟨here, content', way⟩ := Files.Tree.isFile_iff.1 (older _ comes.mem)
      obtain rfl := Leads.unique leads (Leads.mono within.grows ⟨_, way⟩)
      exact ⟨content', (Files.Tree.locate_file way).2.2⟩

theorem Courses.discover_again (wrapper : p.renderer = .wrapper) (wellFormed : t.WellFormed)
    (discovered : Discovery.discover t dir = .ok files)
    (h : p.Courses ⟨t, 0, []⟩ files outcomes stopped s') :
    Discovery.discover s'.tree dir = .ok files := by
  have within := h.within (plain_of_wrapper wrapper)
  obtain ⟨_, site, each⟩ := Discovery.discover_spec wellFormed discovered
  exact Discovery.discover_again wellFormed (within.wellFormed wellFormed) within.grows
    (h.noNewDescription wrapper (fun file held => (each file held).1)
      fun file held => (each file held).2)
    discovered

structure Stays (p : Pipeline) (t : Tree) (files : List Path) (t₁ t₂ : Tree) (file : Path) :
    Prop where
  description : t₂.read file = t₁.read file
  sibling : t₂.read (Saving.siblingPath file) = t₁.read (Saving.siblingPath file)
  archive : ∀ old parsed, Describes t file old parsed → ∀ i,
    t₂.read ((p.placed file parsed).referencePath i) =
      t₁.read ((p.placed file parsed).referencePath i)
  generated : ∀ old parsed, Describes t file old parsed → p.Owns t files parsed.name file →
    parsed.AllSettable →
      t₂.read (p.renderer.generatedPath (p.placed file parsed)) =
        t₁.read (p.renderer.generatedPath (p.placed file parsed))

theorem stays_of_level {t₂ : Tree} (wrapper : p.renderer = .wrapper)
    (inSite : ∀ file ∈ files, DescriptionIn site file) (level : Level (p.MadeAnew t files t₁) t₁ t₂)
    (among : file ∈ files) : p.Stays t files t₁ t₂ file where
  description := level.read fun _ leads anew => by
    obtain ⟨tool, name⟩ := anew.tool
    exact nomatch anew.lastOf_eq (x := .description) wrapper inSite among leads name
  sibling := level.read fun _ leads anew => by
    obtain ⟨tool, name⟩ := anew.tool
    exact nomatch anew.lastOf_eq (x := .sibling) wrapper inSite among leads name
  archive _ _ described i := level.read fun _ leads anew =>
    nomatch anew.lastOf_eq (x := .archive i) wrapper inSite among leads described.isName.1
  generated _ _ described owns settable := level.read fun _ leads anew =>
    anew.not_allSettable (x := .wrapper) wrapper inSite among leads described owns settable

/-- Running a directory again comes to the same ends. It leaves every description with its sibling
and its archives as the first run left them, and every wrapper but those of tools with read-only
properties. -/
theorem run_again (real : p.options.dryRun = false) (wrapper : p.renderer = .wrapper)
    (steady : p.synchronizer.fetcher.IsSteady) (wellFormed : t.WellFormed)
    (discovered : Discovery.discover t dir = .ok files)
    (whole : ∀ file ∈ files, ∀ old parsed, Describes t file old parsed → parsed.Whole)
    {report : RunReport} {events : List RunEvent} (ran : p.run t dir = .ok (report, events, t₁)) :
    ∃ report' events' t₂, p.run t₁ dir = .ok (report', events', t₂) ∧
      report'.outcomes.map fate = report.outcomes.map fate ∧
      report'.stoppedEarly = report.stoppedEarly ∧
      (∀ file ∈ files, p.Stays t files t₁ t₂ file) ∧
      ∀ at_, t₂.get? at_ ≠ t₁.get? at_ → p.MadeAnew t files t₁ at_ := by
  obtain ⟨files', s', discovered', courses, rfl, dry⟩ := run_eq_ok.1 ⟨events, ran⟩
  obtain rfl : files' = files := Except.ok.inj (discovered'.symm.trans discovered)
  obtain ⟨nodup, site, each⟩ := Discovery.discover_spec wellFormed discovered
  have inSite := fun file held => (each file held).1
  have within := courses.within (plain_of_wrapper wrapper)
  obtain ⟨outcomes', u, again, fates, level⟩ :=
    courses.again (X := p.MadeAnew t files' s'.tree) (u := ⟨s'.tree, 0, []⟩) real wrapper steady
      (within.wellFormed wellFormed) wellFormed.home nodup inSite
        (fun file held => (each file held).2)
      whole
      (fun file among old parsed described owned readOnly at_ leads =>
        ⟨file, among, old, parsed, described, courses.owns_iff.2 owned, readOnly, leads⟩)
      (fun file among at_ leads anew => by
        obtain ⟨tool, name⟩ := anew.tool
        exact nomatch anew.lastOf_eq (x := .description) wrapper inSite among leads name)
      (Level.refl _ _) rfl
  obtain ⟨events', ran'⟩ : ∃ events', p.run s'.tree dir =
      .ok (⟨outcomes', p.options.dryRun, report.stoppedEarly⟩, events', u.tree) :=
    run_eq_ok.2 ⟨files', u, courses.discover_again wrapper wellFormed discovered, again, rfl, rfl⟩
  exact ⟨_, events', u.tree, ran', fates, rfl,
    fun file among => stays_of_level wrapper inSite level among, level.within.changed⟩

theorem run_again_box : ∃ report events t₂,
    boxPipeline.run boxDone ⟨"."⟩ = .ok (report, events, t₂) ∧
      report.outcomes.map fate = [(Loading.boxFile, true)] ∧
      boxPipeline.Stays Loading.boxTree [Loading.boxFile] boxDone t₂ Loading.boxFile := by
  have whole : ∀ file ∈ [Loading.boxFile], ∀ old parsed,
      Describes Loading.boxTree file old parsed → parsed.Whole := by
    intro file among old parsed described
    obtain rfl := List.mem_singleton.1 among
    obtain ⟨_, rfl⟩ := described.unique describes_box
    simp [Tool.Whole, Wrapper.allProperties, Loading.box, Json.Whole, Json.FreeValue.null]
  obtain ⟨_, ran⟩ := run_box
  obtain ⟨report, events, t₂, ran', fates, _, stays, _⟩ :=
    run_again rfl rfl (fun _ _ _ => rfl) Discovery.wellFormed_box Discovery.discover_box whole ran
  exact ⟨report, events, t₂, ran', fates, stays _ List.mem_cons_self⟩

end Toolwright.Pipeline
