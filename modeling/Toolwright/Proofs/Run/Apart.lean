import Toolwright.Proofs.Discovery
import Toolwright.Proofs.Run.Course

/-!
Outputs of a run over a directory. A name belongs to the description that took it first, so the
outputs of two descriptions have different names or are in directories of different names, and the
outputs of one description have different names. None of them is a description of the run but the
one that was saved.
-/

namespace Toolwright

open Files (IsName Location Tree)

/-- Where something is made for a description that was worked on to the end. -/
def FileReport.paths (r : FileReport) : List Path :=
  r.generated.path :: r.references.map (·.path) ++ [r.saved.path]

def FileOutcome.paths (o : FileOutcome) : List Path :=
  match o.result with
  | .ok r => r.paths
  | .error _ => []

namespace Pipeline

variable {p : Pipeline} {s s' : RunState} {file dir site : Path} {files : List Path} {t t' u : Tree}
  {r : FileReport} {outcomes : List FileOutcome} {stopped : Bool} {parsed : Tool}

def products (count : Nat) (last : Product) : List Product :=
  Product.wrapper :: (List.range count).map Product.archive ++ [last]

theorem nodup_products {count : Nat} {last : Product} (outside : last.isInside = false) :
    (products count last).Nodup := by
  have archives : ((List.range count).map Product.archive).Nodup :=
    List.nodup_range.map fun i j same => Product.archive.inj same
  cases last with
  | wrapper => cases outside
  | archive index => cases outside
  | description => simp [products, List.nodup_append, archives]
  | sibling => simp [products, List.nodup_append, archives]

/-- The outputs of a description are different products, of which the last is no wrapper and no
archive. -/
structure Makes (p : Pipeline) (file : Path) (parsed : Tool) (r : FileReport) (count : Nat)
    (last : Product) : Prop where
  name : IsName parsed.name
  outside : last.isInside = false
  paths : r.paths = (products count last).map (p.productPath file parsed)
  saved : r.saved.path = p.productPath file parsed last

theorem archivePaths {references : List ReferenceOutcome} {tool : Tool}
    (h : p.archiveReferences t tool = (references, t')) :
    ∃ count, references.map (·.path) = (List.range count).map tool.referencePath := by
  have whole := congrArg (List.map fun o => o.2.2) (archiveReferences_outline h)
  rw [List.map_map] at whole
  split at whole
  · refine ⟨tool.references.length, whole.trans (List.ext_getElem (by simp) fun i _ _ => ?_)⟩
    simp
  · exact ⟨0, whole⟩

theorem Produces.makes {old : String} (plain : '/' ∉ p.renderer.extension.toList)
    (described : Describes s.tree file old parsed)
    (h : p.Produces s (p.placed file parsed) (.ok r) s') :
    ∃ count last, p.Makes file parsed r count last := by
  cases h with
  | @finished _ _ generated _ references t₂ saved _ render write archive save =>
    have read : t₂.readText (p.placed file parsed).definitionFile = .ok old :=
      (described.before_save plain write archive).2
    obtain ⟨written, rfl⟩ := eq_verdict_of_save read save
    obtain ⟨count, archives⟩ := archivePaths archive
    obtain ⟨last, outside, _, destination⟩ := p.due_destination file parsed old
    have saved : (verdict (p.placed file parsed) old written).path =
        p.productPath file parsed last := by
      rw [destination, verdict, placed, Tool.canonicalText_placed_wired]
      rfl
    refine ⟨count, last, described.isName.1, outside, ?_, saved⟩
    simp only [FileReport.paths, archives, generated_of_write write, saved, products,
      List.map_append, List.map_cons, List.map_map, List.map_nil]
    rfl

theorem Works.makes (plain : '/' ∉ p.renderer.extension.toList) (h : p.Works s file (.ok r) s') :
    ∃ parsed count last, p.Makes file parsed r count last ∧ s.owners.lookup parsed.name = none ∧
      s'.owners = (parsed.name, file) :: s.owners := by
  cases h with
  | produced load free produces =>
    obtain ⟨parsed, old, described, rfl, made⟩ := load_eq_ok.1 load
    obtain ⟨count, last, makes⟩ := produces.makes plain (described.made made)
    refine ⟨parsed, count, last, makes, free, ?_⟩
    cases produces
    rfl

theorem Makes.mem_products {count : Nat} {last : Product} {q : Path}
    (h : p.Makes file parsed r count last) (held : q ∈ r.paths) :
    ∃ x ∈ products count last, q = p.productPath file parsed x := by
  rw [h.paths] at held
  obtain ⟨x, among, rfl⟩ := List.mem_map.1 held
  exact ⟨x, among, rfl⟩

section Wrapper

variable (wrapper : p.renderer = .wrapper)

include wrapper

theorem Makes.pairwise {count : Nat} {last : Product} (h : p.Makes file parsed r count last)
    (described : DescriptionIn site file) : r.paths.Pairwise fun q q' => ¬ Path.Meets u q q' := by
  rw [h.paths, List.pairwise_map]
  refine (nodup_products h.outside).imp fun ne meets => ne ?_
  exact (eq_of_meets wrapper described described h.name h.name (fun _ _ _ => rfl) meets).2

theorem Makes.description {count : Nat} {last : Product} {q file' : Path}
    (h : p.Makes file parsed r count last) (described : DescriptionIn site file)
    (described' : DescriptionIn site file') (held : q ∈ r.paths) (meets : Path.Meets u q file') :
    q = r.saved.path ∧ file' = file := by
  obtain ⟨x, among, rfl⟩ := h.mem_products held
  obtain ⟨rfl, rfl⟩ := eq_of_meets (y := .description) wrapper described described' h.name h.name
    (fun _ inside => by cases inside) meets
  have own : last = .description := by
    simpa [products, eq_comm] using among
  rw [h.saved, own]
  exact ⟨rfl, rfl⟩

theorem Makes.apart {count count' : Nat} {last last' : Product} {file' q q' : Path} {parsed' : Tool}
    {r' : FileReport} (h : p.Makes file parsed r count last)
    (h' : p.Makes file' parsed' r' count' last') (described : DescriptionIn site file)
    (described' : DescriptionIn site file') (names : parsed.name ≠ parsed'.name) (ne : file ≠ file')
    (held : q ∈ r.paths) (held' : q' ∈ r'.paths) : ¬ Path.Meets u q q' := by
  obtain ⟨x, _, rfl⟩ := h.mem_products held
  obtain ⟨y, _, rfl⟩ := h'.mem_products held'
  intro meets
  exact ne (eq_of_meets wrapper described described' h.name h'.name
    (fun _ _ same => absurd same names) meets).1

theorem Courses.makes (h : p.Courses s files outcomes stopped s') {o : FileOutcome}
    (held : o ∈ outcomes) (ok : o.result = .ok r) : o.file ∈ files ∧ ∃ parsed count last,
      p.Makes o.file parsed r count last ∧ s.owners.lookup parsed.name = none := by
  have plain := plain_of_wrapper wrapper
  have own : ∀ {s s' : RunState} {file : Path} {result : Except Failure FileReport},
      p.Works s file result s' → result = .ok r → ∃ parsed count last,
        p.Makes file parsed r count last ∧ s.owners.lookup parsed.name = none := by
    rintro s s' file _ works rfl
    obtain ⟨parsed, count, last, makes, free, _⟩ := works.makes plain
    exact ⟨parsed, count, last, makes, free⟩
  induction h with
  | done => cases held
  | stopped works ends =>
    obtain rfl := List.mem_singleton.1 held
    exact ⟨List.mem_cons_self, own works ok⟩
  | next works goes later ih =>
    rcases List.mem_cons.1 held with rfl | behind
    · exact ⟨List.mem_cons_self, own works ok⟩
    · obtain ⟨among, parsed, count, last, makes, free⟩ := ih behind
      refine ⟨List.mem_cons_of_mem _ among, parsed, count, last, makes, ?_⟩
      rcases works.owners with same | ⟨_, _, _, _, more⟩
      · rwa [same] at free
      · rw [more, List.lookup_cons] at free
        split at free
        · cases free
        · exact free

theorem Courses.pairwise (h : p.Courses s files outcomes stopped s') (nodup : files.Nodup)
    (described : ∀ file ∈ files, DescriptionIn site file) :
    (outcomes.flatMap FileOutcome.paths).Pairwise fun q q' => ¬ Path.Meets u q q' := by
  have plain := plain_of_wrapper wrapper
  -- outputs of one description differ in kind, those of two in the name that each took
  have alone : ∀ {s s' : RunState} {file : Path} {result : Except Failure FileReport},
      p.Works s file result s' → DescriptionIn site file →
        (FileOutcome.mk file result).paths.Pairwise fun q q' => ¬ Path.Meets u q q' := by
    intro s s' file result works there
    cases result with
    | error f => exact .nil
    | ok r =>
      obtain ⟨parsed, count, last, makes, _⟩ := works.makes plain
      exact makes.pairwise wrapper there
  induction h with
  | done => exact .nil
  | stopped works ends =>
    simpa using alone works (described _ List.mem_cons_self)
  | @next s s₁ s' file rest result outcomes stopped works goes later ih =>
    obtain ⟨apart, nodup⟩ := List.nodup_cons.1 nodup
    obtain ⟨there, others⟩ := List.forall_mem_cons.1 described
    rw [List.flatMap_cons, List.pairwise_append]
    refine ⟨alone works there, ih nodup others, fun q held q' held' => ?_⟩
    obtain ⟨o, among, held'⟩ := List.mem_flatMap.1 held'
    cases result with
    | error f => cases held
    | ok r =>
      obtain ⟨parsed, count, last, makes, _, owns⟩ := works.makes plain
      cases found : o.result with
      | error f =>
        rw [FileOutcome.paths, found] at held'
        cases held'
      | ok r' =>
        rw [FileOutcome.paths, found] at held'
        obtain ⟨behind, parsed', count', last', makes', free⟩ := later.makes wrapper among found
        refine makes.apart wrapper makes' there (others _ behind) ?_ ?_ held held'
        · intro same
          simp [owns, same] at free
        · rintro rfl
          exact apart behind

end Wrapper

/-- The outputs of a run over a directory do not meet each other in any tree, and an output meets a
description of the run only if it is what was saved for that description. -/
theorem run_paths_apart (wrapper : p.renderer = .wrapper) (wellFormed : t.WellFormed)
    (discovered : Discovery.discover t dir = .ok files) {report : RunReport}
    {events : List RunEvent} (ran : p.run t dir = .ok (report, events, t')) (u : Tree) :
    ((report.outcomes.flatMap FileOutcome.paths).Pairwise fun q q' => ¬ Path.Meets u q q') ∧
      ∀ o ∈ report.outcomes, ∀ r, o.result = .ok r → ∀ q ∈ r.paths, ∀ file ∈ files,
        Path.Meets u q file → q = r.saved.path ∧ file = o.file := by
  obtain ⟨nodup, site, each⟩ := Discovery.discover_spec wellFormed discovered
  have described : ∀ file ∈ files, DescriptionIn site file := fun file held => (each file held).1
  obtain ⟨files', _, discovered', courses, _⟩ := run_eq_ok.1 ⟨events, ran⟩
  obtain rfl : files' = files := Except.ok.inj (discovered'.symm.trans discovered)
  refine ⟨courses.pairwise wrapper nodup described, fun o held r ok q among file there meets => ?_⟩
  obtain ⟨own, parsed, count, last, makes, _⟩ := courses.makes wrapper held ok
  exact makes.description wrapper (described _ own) (described _ there) among meets

theorem run_paths_apart_box :
    (boxReport.paths.Pairwise fun q q' => ¬ Path.Meets boxDone q q') ∧
      ¬ Path.Meets boxDone boxReport.generated.path Loading.boxFile := by
  obtain ⟨events, ran⟩ := run_box
  obtain ⟨apart, own⟩ :=
    run_paths_apart rfl Discovery.wellFormed_box Discovery.discover_box ran boxDone
  refine ⟨by simpa [FileOutcome.paths] using apart, fun meets => ?_⟩
  obtain ⟨same, _⟩ := own _ List.mem_cons_self boxReport rfl boxReport.generated.path
    List.mem_cons_self _ List.mem_cons_self meets
  exact absurd same (by decide)

end Pipeline

end Toolwright
