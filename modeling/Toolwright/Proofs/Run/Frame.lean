import Toolwright.Proofs.Run.Course

/-!
What a run may change. Every place that differs afterwards belongs to a valid description that the
run came to: it is a directory that leads to what is made for the tool, a file in that directory,
the description itself or its sibling. The directory is named like the tool, and that name is one
ordinary step of a path.
-/

namespace Toolwright.Pipeline

open Files (IsName Location Tree)
open Files.Tree (Encloses Leads)

variable {p : Pipeline} {s : RunState} {parsed : Tool} {file : Path} {t t' : Tree} {old : String}
  {at_ : Location}

/-- The files `t` and `t'` may differ at the place because of a description with the text `old`. -/
inductive Change (p : Pipeline) (t t' : Tree) (file : Path) (old : String) (parsed : Tool)
    (at_ : Location) : Prop
  | directory {q : Path} (free : t.get? at_ = none) (made : t'.get? at_ = some .directory)
      (encloses : Encloses q (parsed.directory p.options.load)) (leads : Leads t' q at_)
  | generated {above : Location} {stem : String} (named : file.fileStem? = some stem)
      (inside : t'.locate (parsed.directory p.options.load) = .ok (.entry above .directory))
      (here : at_ = above ++ [stem ++ ".Generated." ++ p.renderer.extension])
  | archive {above : Location} {stem : String} {k : Nat} (named : file.fileStem? = some stem)
      (inside : t'.locate (parsed.directory p.options.load) = .ok (.entry above .directory))
      (bound : k < parsed.references.length)
      (here : at_ = above ++ [stem ++ ".ref." ++ Tool.threeDigits k ++ ".txt"])
  | description (leads : Leads t' file at_)
      (same : Text.lineCount old.toList = Text.lineCount parsed.canonicalText.toList)
  | sibling (leads : Leads t' (Saving.siblingPath file) at_)
      (other : Text.lineCount old.toList ≠ Text.lineCount parsed.canonicalText.toList)

theorem Touches.change (plain : '/' ∉ p.renderer.extension.toList)
    (touches : p.Touches s file t' at_) (before : s.tree.get? at_ = none → t.get? at_ = none) :
    ∃ parsed old, Describes s.tree file old parsed ∧ p.Change t t' file old parsed at_ := by
  obtain ⟨parsed, old, described, made | ⟨_, x, due, leads⟩⟩ := touches
  · obtain ⟨q, encloses, leads⟩ := made.leads
    exact ⟨parsed, old, described, .directory (before made.free) made.directory encloses leads⟩
  · refine ⟨parsed, old, described, ?_⟩
    obtain ⟨site, n, rfl, isName⟩ := Files.Tree.join_of_readText described.1
    have named : (site.join ⟨n⟩).fileStem? = some (Path.stem n) := by
      rw [Path.fileStem?, Path.fileName?_join isName, Option.map_some]
    have inner := Product.isName_name isName plain x
    rw [productPath, placed, Product.path_eq _ isName] at leads
    cases due with
    | wrapper =>
      obtain ⟨above, inside, here⟩ := leads.inside described.isName.1 inner
      exact .generated named inside (by rw [here, Product.name, String.append_assoc])
    | archive bound =>
      obtain ⟨above, inside, here⟩ := leads.inside described.isName.1 inner
      exact .archive named inside bound
        (by rw [here, Product.name]; simp only [String.append_assoc])
    | description same => exact .description leads same
    | sibling other =>
      refine .sibling ?_ other
      rw [Saving.siblingPath, Path.extend_join isName.relative _ isName.ne_empty]
      exact leads

/-- Whatever happens to the descriptions of a run, a place that differs afterwards differs because
of one of them, one that is valid. The name of the tool of a valid description is an ordinary step
behind the output directory. -/
theorem runFiles_frame (p : Pipeline) (plain : '/' ∉ p.renderer.extension.toList) (t : Tree)
    (files : List Path) :
    (∀ at_, (p.runFiles t files).2.2.get? at_ ≠ t.get? at_ →
      ∃ file s parsed old, p.Comes ⟨t, 0, []⟩ files file s ∧ s.tree.readText file = .ok old ∧
        Tool.parse old = .ok parsed ∧ parsed.defect? = none ∧
        p.Change t (p.runFiles t files).2.2 file old parsed at_) ∧
    ∀ parsed : Tool, parsed.defect? = none →
      IsName parsed.name ∧ '\\' ∉ parsed.name.toList ∧
        (parsed.directory p.options.load).steps =
          p.options.load.outputRoot.steps ++ [.entry parsed.name] := by
  constructor
  · intro at_ changed
    have courses : p.Courses ⟨t, 0, []⟩ files _ _ _ := courses_iff.2 ⟨_, rfl⟩
    obtain ⟨file, s, comes, touches⟩ := (courses.within plain).changed at_ changed
    obtain ⟨parsed, old, described, change⟩ :=
      touches.change plain (comes.grows plain).get?_eq_none
    exact ⟨file, s, parsed, old, comes, described.1, described.2.1, described.2.2, change⟩
  · intro parsed valid
    obtain ⟨isName, ordinary⟩ :=
      Tool.isName_of_nameDefect?_eq_none (Tool.defect?_eq_none.1 valid).1
    exact ⟨isName, ordinary, Path.steps_join isName⟩

theorem runFiles_frame_box :
    boxDone.get? ["out", "demo", "demo.Generated.rs"] ≠
      Loading.boxTree.get? ["out", "demo", "demo.Generated.rs"] ∧
    ∃ old parsed, boxPipeline.Change Loading.boxTree boxDone Loading.boxFile old parsed
      ["out", "demo", "demo.Generated.rs"] := by
  have made : boxDone.get? ["out", "demo", "demo.Generated.rs"] =
      some (.file boxSource.toUTF8) := by
    rfl
  have free : Loading.boxTree.get? ["out", "demo", "demo.Generated.rs"] = none := by rfl
  have changed : boxDone.get? ["out", "demo", "demo.Generated.rs"] ≠
      Loading.boxTree.get? ["out", "demo", "demo.Generated.rs"] := by
    rw [made, free]
    exact nofun
  obtain ⟨events, all⟩ := courses_iff.1 courses_box
  have after : (boxPipeline.runFiles Loading.boxTree [Loading.boxFile]).2.2 = boxDone := by
    simp only [runFiles, all]
  obtain ⟨frame, _⟩ :=
    runFiles_frame boxPipeline (by decide) Loading.boxTree [Loading.boxFile]
  obtain ⟨file, _, parsed, old, comes, _, _, _, change⟩ := frame _ (by rw [after]; exact changed)
  obtain rfl := List.mem_singleton.1 comes.mem
  exact ⟨changed, old, parsed, after ▸ change⟩

end Toolwright.Pipeline
