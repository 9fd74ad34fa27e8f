import Toolwright.Proofs.Discovery
import Toolwright.Proofs.Run.Step

/-!
What a run does with its descriptions, one after another. A run comes to a description in some
state, and whatever has changed in the end was changed by the work on a description that the run
came to. Descriptions of one directory do not change each other.
-/

namespace Toolwright.Pipeline

open Files (Entry IsName Location Tree)
open Files.Tree (Extends Leads Within)

variable {p : Pipeline} {s s' : RunState} {file : Path} {files : List Path}
  {result : Except Failure FileReport} {outcomes : List FileOutcome} {stopped : Bool}

def GoesOn (p : Pipeline) (result : Except Failure FileReport) : Prop :=
  result.toOption.isSome = true ∨ p.options.failFast = false

inductive Courses (p : Pipeline) : RunState → List Path → List FileOutcome → Bool → RunState → Prop
  | done {s : RunState} : Courses p s [] [] false s
  | stopped {s s' : RunState} {file : Path} {rest : List Path} {result : Except Failure FileReport}
      (works : p.Works s file result s') (ends : ¬ p.GoesOn result) :
      Courses p s (file :: rest) [⟨file, result⟩] true s'
  | next {s s₁ s' : RunState} {file : Path} {rest : List Path} {result : Except Failure FileReport}
      {outcomes : List FileOutcome} {stopped : Bool} (works : p.Works s file result s₁)
      (goes : p.GoesOn result) (later : Courses p s₁ rest outcomes stopped s') :
      Courses p s (file :: rest) (⟨file, result⟩ :: outcomes) stopped s'

theorem stops_iff : (!(FileOutcome.mk file result).isOk && p.options.failFast) = true ↔
    ¬ p.GoesOn result := by
  unfold GoesOn FileOutcome.isOk
  cases result.toOption <;> cases p.options.failFast <;> simp

theorem courses_iff : p.Courses s files outcomes stopped s' ↔
    ∃ events, p.processAll s files = ⟨outcomes, events, stopped, s'⟩ := by
  constructor
  -- one direction by the course, the other one by the list that the loop goes through
  · intro h
    induction h with
    | done => exact ⟨[], rfl⟩
    | @stopped _ _ file _ result works ends =>
      obtain ⟨events, process⟩ := works_iff.1 works
      refine ⟨fileEvents file result events, ?_⟩
      simp only [processAll, process]
      rw [if_pos (stops_iff.2 ends)]
    | @next _ _ _ file _ result _ _ works goes _ ih =>
      obtain ⟨events, process⟩ := works_iff.1 works
      obtain ⟨others, all⟩ := ih
      refine ⟨fileEvents file result events ++ others, ?_⟩
      simp only [processAll, process, all]
      rw [if_neg (fun stops => stops_iff.1 stops goes)]
  · rintro ⟨events, h⟩
    induction files generalizing s outcomes events with
    | nil =>
      cases h
      exact .done
    | cons file rest ih =>
      rcases process : p.process s file with ⟨result, inner, s₁⟩
      have works : p.Works s file result s₁ := works_iff.2 ⟨inner, process⟩
      simp only [processAll, process] at h
      split at h
      · rename_i stops
        cases h
        exact .stopped works (stops_iff.1 stops)
      · rename_i goes
        have goes' : p.GoesOn result := Classical.byContradiction fun ends =>
          goes (stops_iff.2 ends)
        rcases all : p.processAll s₁ rest with ⟨others, more, ended, last⟩
        rw [all] at h
        cases h
        exact .next works goes' (ih _ all)

theorem run_eq_ok {t t' : Tree} {dir : Path} {report : RunReport} :
    (∃ events, p.run t dir = .ok (report, events, t')) ↔
      ∃ files s', Discovery.discover t dir = .ok files ∧
        p.Courses ⟨t, 0, []⟩ files report.outcomes report.stoppedEarly s' ∧ s'.tree = t' ∧
        report.dryRun = p.options.dryRun := by
  unfold run
  constructor
  · rintro ⟨events, h⟩
    cases discovered : Discovery.discover t dir with
    | error f =>
      rw [discovered] at h
      cases h
    | ok files =>
      rw [discovered] at h
      cases h
      exact ⟨files, _, rfl, courses_iff.2 ⟨_, rfl⟩, rfl, rfl⟩
  · rintro ⟨files, s', discovered, courses, rfl, dry⟩
    obtain ⟨events, all⟩ := courses_iff.1 courses
    obtain ⟨outcomes, dryRun, stopped⟩ := report
    obtain rfl := dry
    exact ⟨_, by simp only [discovered, runFiles, all]; rfl⟩

inductive Comes (p : Pipeline) : RunState → List Path → Path → RunState → Prop
  | here {s : RunState} {file : Path} {rest : List Path} : Comes p s (file :: rest) file s
  | later {s s₁ s' : RunState} {first file : Path} {rest : List Path}
      {result : Except Failure FileReport} (works : p.Works s first result s₁)
      (goes : p.GoesOn result) (comes : Comes p s₁ rest file s') : Comes p s (first :: rest) file s'

theorem Comes.mem (h : p.Comes s files file s') : file ∈ files := by
  induction h with
  | here => exact List.mem_cons_self
  | later _ _ _ ih => exact List.mem_cons_of_mem _ ih

theorem Courses.within (plain : '/' ∉ p.renderer.extension.toList)
    (h : p.Courses s files outcomes stopped s') :
    Within (fun at_ => ∃ file s₁, p.Comes s files file s₁ ∧ p.Touches s₁ file s'.tree at_)
      s.tree s'.tree := by
  induction h with
  | done => exact .refl _ _
  | stopped works ends =>
    exact (works.within plain).mono fun at_ touches => ⟨_, _, .here, touches⟩
  | next works goes later ih =>
    refine ((works.within plain).mono fun at_ touches => ?_).trans (ih.mono fun at_ among => ?_)
    · exact ⟨_, _, .here, touches.mono ih.grows⟩
    · obtain ⟨file, s₁, comes, touches⟩ := among
      exact ⟨file, s₁, .later works goes comes, touches⟩

theorem Comes.grows (plain : '/' ∉ p.renderer.extension.toList) (h : p.Comes s files file s') :
    Extends Entry.SameKind s.tree s'.tree := by
  induction h with
  | here => exact .sameKind_refl _
  | later works _ _ ih => exact (works.within plain).grows.sameKind_trans ih

/-- A name that is in use when a run begins is in use whenever the run comes to a description. -/
theorem Comes.owned {name : String} (h : p.Comes s files file s')
    (free : s'.owners.lookup name = none) : s.owners.lookup name = none := by
  induction h with
  | here => exact free
  | later works _ _ ih =>
    have later := ih free
    rcases works.owners with same | ⟨_, _, _, _, more⟩
    · rwa [same] at later
    · rw [more, List.lookup_cons] at later
      split at later
      · cases later
      · exact later

theorem Courses.owner {name : String} (h : p.Courses s files outcomes stopped s')
    (owned : s.owners.lookup name = some file) : s'.owners.lookup name = some file := by
  have step : ∀ {s s' : RunState} {other : Path} {result : Except Failure FileReport},
      p.Works s other result s' → s.owners.lookup name = some file →
        s'.owners.lookup name = some file := by
    intro s s' other result works owned
    rcases works.owners with same | ⟨parsed, _, _, free, more⟩
    · rwa [same]
    · have ne : (name == parsed.name) = false := by
        rw [beq_eq_false_iff_ne]
        rintro rfl
        rw [free] at owned
        cases owned
      rw [more, List.lookup_cons, ne]
      exact owned
  induction h with
  | done => exact owned
  | stopped works _ => exact step works owned
  | next works _ _ ih => exact ih (step works owned)

section Site

variable {site other : Path} {t : Tree} {at_ : Location}

theorem Touches.file_eq {parsed : Tool} {y : Product} {e : Entry} (wrapper : p.renderer = .wrapper)
    (described : DescriptionIn site file) (described' : DescriptionIn site other)
    (name : IsName parsed.name)
    (owner : y.isInside = true → s.owners.lookup parsed.name = none → file = other)
    (held : s.tree.get? at_ = some e) (touches : p.Touches s file t at_)
    (leads : Leads t (p.productPath other parsed y) at_) : file = other := by
  obtain ⟨parsed', old, described₀, made | ⟨free, x, _, own⟩⟩ := touches
  · rw [made.free] at held
    cases held
  · exact (eq_of_meets wrapper described described' described₀.isName.1 name
      (fun _ inside same => owner inside (same ▸ free)) (.inr ⟨at_, own, leads⟩)).1

theorem Touches.description_eq (wrapper : p.renderer = .wrapper) {e : Entry}
    (described : DescriptionIn site file) (described' : DescriptionIn site other)
    (held : s.tree.get? at_ = some e) (touches : p.Touches s file t at_)
    (leads : Leads t other at_) :
    file = other := by
  obtain ⟨parsed, old, described₀, _⟩ := id touches
  exact touches.file_eq (y := .description) wrapper described described' described₀.isName.1
    (fun inside => by cases inside) held leads

theorem plain_of_wrapper (wrapper : p.renderer = .wrapper) : '/' ∉ p.renderer.extension.toList := by
  rw [wrapper]
  decide

theorem Works.locate_eq (wrapper : p.renderer = .wrapper) (h : p.Works s file result s')
    (described : DescriptionIn site file) (others : ∀ other ∈ files, DescriptionIn site other)
    (apart : file ∉ files) (older : ∀ other ∈ files, s.tree.isFile other = true) :
    ∀ other ∈ files, s'.tree.locate other = s.tree.locate other := by
  intro other held
  have within := h.within (plain_of_wrapper wrapper)
  obtain ⟨found, content, way⟩ := Files.Tree.isFile_iff.1 (older other held)
  rw [way]
  refine within.locate_file way fun touches => apart ?_
  have same := touches.description_eq wrapper described (others other held)
    (Files.Tree.locate_file way).2.2 (Leads.mono within.grows ⟨_, way⟩)
  exact same ▸ held

theorem Courses.description_eq (wrapper : p.renderer = .wrapper)
    (h : p.Courses s files outcomes stopped s') (described : DescriptionIn site other)
    (others : ∀ file ∈ files, DescriptionIn site file) (apart : other ∉ files)
    (older : s.tree.isFile other = true) : s'.tree.locate other = s.tree.locate other := by
  have plain := plain_of_wrapper wrapper
  have within := h.within plain
  obtain ⟨found, content, way⟩ := Files.Tree.isFile_iff.1 older
  rw [way]
  refine within.locate_file way fun ⟨file, s₁, comes, touches⟩ => apart ?_
  obtain ⟨e, held, _⟩ := (comes.grows plain).entry _ _ (Files.Tree.locate_file way).2.2
  have same := touches.description_eq wrapper (others file comes.mem) described held
    (Leads.mono within.grows ⟨_, way⟩)
  exact same ▸ comes.mem

theorem Courses.locate_eq {parsed : Tool} {y : Product} {content : ByteArray}
    (wrapper : p.renderer = .wrapper) (h : p.Courses s files outcomes stopped s')
    (described : DescriptionIn site other) (others : ∀ file ∈ files, DescriptionIn site file)
    (apart : other ∉ files) (name : IsName parsed.name)
    (owned : y.isInside = true → s.owners.lookup parsed.name ≠ none)
    (way : s.tree.locate (p.productPath other parsed y) = .ok (.entry at_ (.file content))) :
    s'.tree.locate (p.productPath other parsed y) = .ok (.entry at_ (.file content)) := by
  have plain := plain_of_wrapper wrapper
  have within := h.within plain
  refine within.locate_file way fun ⟨file, s₁, comes, touches⟩ => apart ?_
  obtain ⟨e, held, _⟩ := (comes.grows plain).entry _ _ (Files.Tree.locate_file way).2.2
  have same := touches.file_eq wrapper (others file comes.mem) described name
    (fun inside free => absurd (comes.owned free) (owned inside)) held
    (Leads.mono within.grows ⟨_, way⟩)
  exact same ▸ comes.mem

end Site

open Loading (box boxFile boxText boxTree)

def boxPipeline : Pipeline :=
  ⟨.wrapper, .standard (.ofDocuments []), { RunOptions.standard with load := .below ⟨"out"⟩ }⟩

def boxTool : Tool := boxPipeline.placed boxFile box

def boxSource : String := (Wrapper.Source.ofTool boxTool).text

def boxGenerated : GeneratedFile :=
  ⟨boxPipeline.renderer.generatedPath boxTool, Hash.sha256Hex boxSource.toUTF8,
    boxSource.utf8ByteSize⟩

/-- The description is replaced, both texts having eight lines. -/
def boxReport : FileReport := ⟨"demo", boxGenerated, [], ⟨.description, boxFile, true, 8, 8⟩⟩

def boxMade : Tree := (boxTree.put ["out"] .directory).put ["out", "demo"] .directory

def boxWritten : Tree := boxMade.put ["out", "demo", "demo.Generated.rs"] (.file boxSource.toUTF8)

def boxDone : Tree := boxWritten.put ["demo.json"] (.file boxTool.canonicalText.toUTF8)

theorem describes_box : Describes boxTree boxFile boxText box :=
  ⟨Files.Tree.readText_eq_ok.2 ⟨["demo.json"], by rfl⟩, by rfl, by rfl⟩

theorem courses_box : boxPipeline.Courses ⟨boxTree, 0, []⟩ [boxFile]
    [⟨boxFile, .ok boxReport⟩] false
    ⟨boxDone, 1, [("demo", boxFile)]⟩ := by
  have load : Loading.load boxPipeline.loadOptions boxTree boxFile = (.ok boxTool, boxMade) :=
    load_eq_ok.2 ⟨box, boxText, describes_box, rfl, by rfl⟩
  have written : boxMade.writeText (boxPipeline.renderer.generatedPath boxTool) boxSource =
      .ok boxWritten := Files.Tree.writeText_eq_ok.2 ⟨_, by rfl, rfl⟩
  have write : boxPipeline.writeGenerated boxMade boxTool boxSource =
      (.ok boxGenerated, boxWritten) := by
    unfold writeGenerated
    simp only [written]
    rfl
  have save : Saving.save boxWritten boxTool false =
      (.ok ⟨.description, boxFile, true, 8, 8⟩, boxDone) := by rfl
  exact .next (.produced load rfl (.finished rfl write rfl save)) (.inl rfl) .done

theorem run_box : ∃ events, boxPipeline.run boxTree ⟨"."⟩ =
    .ok (⟨[⟨boxFile, .ok boxReport⟩], false, false⟩, events, boxDone) :=
  run_eq_ok.2 ⟨[boxFile], _, Discovery.discover_box, courses_box, rfl, rfl⟩

end Toolwright.Pipeline
