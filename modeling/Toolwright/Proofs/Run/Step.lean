import Toolwright.Proofs.Run.Product
import Toolwright.Run

/-!
What a run does with one description, and what that changes. A description is not loaded, or its
name is taken, or it is worked on until a stage fails or to the end. A stage changes the places of
its own products only, so a description changes the places of its own products, of which those next
to it depend on the numbers of lines.
-/

namespace Toolwright.Pipeline

open Files (Entry IsName Location Tree)
open Files.Tree (Extends Leads MadeAlong Within)

variable {p : Pipeline} {s s' : RunState} {parsed tool : Tool} {file : Path} {t t' : Tree}
  {result : Except Failure FileReport} {old : String} {at_ : Location}

inductive Produces (p : Pipeline) (s : RunState) (tool : Tool) :
    Except Failure FileReport → RunState → Prop
  | unstable {f calls}
      (render : p.renderer.checked s.calls tool p.options.verifyDeterminism = (.error f, calls)) :
      Produces p s tool (.error f) { s with calls := calls }
  | unwritten {text calls f t}
      (render : p.renderer.checked s.calls tool p.options.verifyDeterminism = (.ok text, calls))
      (write : p.writeGenerated s.tree tool text = (.error f, t)) :
      Produces p s tool (.error f) { s with tree := t, calls := calls }
  | unsaved {text calls generated t₁ references t₂ f t₃}
      (render : p.renderer.checked s.calls tool p.options.verifyDeterminism = (.ok text, calls))
      (write : p.writeGenerated s.tree tool text = (.ok generated, t₁))
      (archive : p.archiveReferences t₁ tool = (references, t₂))
      (save : Saving.save t₂ tool p.options.dryRun = (.error f, t₃)) :
      Produces p s tool (.error f) { s with tree := t₃, calls := calls }
  | finished {text calls generated t₁ references t₂ saved t₃}
      (render : p.renderer.checked s.calls tool p.options.verifyDeterminism = (.ok text, calls))
      (write : p.writeGenerated s.tree tool text = (.ok generated, t₁))
      (archive : p.archiveReferences t₁ tool = (references, t₂))
      (save : Saving.save t₂ tool p.options.dryRun = (.ok saved, t₃)) :
      Produces p s tool (.ok ⟨tool.name, generated, references, saved⟩)
        { s with tree := t₃, calls := calls }

theorem produces_iff :
    p.Produces s tool result s' ↔ ∃ events, p.produce s tool = (result, events, s') := by
  constructor
  · intro h
    cases h with
    | unstable render => exact ⟨[], by simp only [produce, generate, render]⟩
    | unwritten render write => exact ⟨[], by simp only [produce, generate, render, write]⟩
    | unsaved render write archive save =>
      exact ⟨_, by simp only [produce, generate, render, write, archive, save]; rfl⟩
    | finished render write archive save =>
      exact ⟨_, by simp only [produce, generate, render, write, archive, save]; rfl⟩
  · rintro ⟨events, h⟩
    unfold produce generate at h
    rcases render : p.renderer.checked s.calls tool p.options.verifyDeterminism
      with ⟨_ | text, calls⟩
    · simp only [render] at h
      cases h
      exact .unstable render
    · rcases write : p.writeGenerated s.tree tool text with ⟨_ | generated, t₁⟩
      · simp only [render, write] at h
        cases h
        exact .unwritten render write
      · rcases archive : p.archiveReferences t₁ tool with ⟨references, t₂⟩
        rcases save : Saving.save t₂ tool p.options.dryRun with ⟨_ | saved, t₃⟩
        · simp only [render, write, archive, save] at h
          cases h
          exact .unsaved render write archive save
        · simp only [render, write, archive, save] at h
          cases h
          exact .finished render write archive save

inductive Works (p : Pipeline) (s : RunState) (file : Path) :
    Except Failure FileReport → RunState → Prop
  | unloaded {f t} (load : Loading.load p.loadOptions s.tree file = (.error f, t)) :
      Works p s file (.error f) { s with tree := t }
  | taken {tool t owner} (load : Loading.load p.loadOptions s.tree file = (.ok tool, t))
      (owned : s.owners.lookup tool.name = some owner) :
      Works p s file (.error (.load file (.nameTaken tool.name owner))) { s with tree := t }
  | produced {tool : Tool} {t : Tree} {result : Except Failure FileReport} {s' : RunState}
      (load : Loading.load p.loadOptions s.tree file = (.ok tool, t))
      (free : s.owners.lookup tool.name = none)
      (produces : p.Produces { s with tree := t, owners := (tool.name, file) :: s.owners } tool
        result s') :
      Works p s file result s'

theorem works_iff :
    p.Works s file result s' ↔ ∃ events, p.process s file = (result, events, s') := by
  constructor
  · intro h
    cases h with
    | unloaded load => exact ⟨[], by simp only [process, load]⟩
    | taken load owned => exact ⟨[], by simp only [process, load, owned]⟩
    | produced load free produces =>
      obtain ⟨events, produce⟩ := produces_iff.1 produces
      exact ⟨events, by simp only [process, load, free, produce]⟩
  · rintro ⟨events, h⟩
    unfold process at h
    rcases load : Loading.load p.loadOptions s.tree file with ⟨_ | tool, t⟩
    · simp only [load] at h
      cases h
      exact .unloaded load
    · simp only [load] at h
      split at h
      · rename_i owned
        cases h
        exact .taken load owned
      · rename_i free
        exact .produced load free (produces_iff.2 ⟨events, h⟩)

/-- A valid description: its text and the tool that it describes. -/
def Describes (t : Tree) (file : Path) (old : String) (parsed : Tool) : Prop :=
  t.readText file = .ok old ∧ Tool.parse old = .ok parsed ∧ parsed.defect? = none

def placed (p : Pipeline) (file : Path) (parsed : Tool) : Tool :=
  (parsed.placed p.options.load file).wired

def productPath (p : Pipeline) (file : Path) (parsed : Tool) (x : Product) : Path :=
  x.path p.renderer (p.placed file parsed)

theorem productPath_inside {site : Path} {n : String} {x : Product} (isName : IsName n)
    (inside : x.isInside = true) : p.productPath (site.join ⟨n⟩) parsed x =
      (parsed.directory p.options.load).join ⟨x.name p.renderer.extension n⟩ := by
  rw [productPath, placed, Product.path_eq _ isName, if_pos inside]

section Meets

variable {site other : Path} {parsed' : Tool} {x y : Product} {u : Tree}
  (wrapper : p.renderer = .wrapper) (described : DescriptionIn site file)
  (described' : DescriptionIn site other) (name : IsName parsed.name) (name' : IsName parsed'.name)

include wrapper described described' name name'

theorem lastOf_eq_of_meets
    (meets : Path.Meets u (p.productPath file parsed x) (p.productPath other parsed' y)) :
    x.lastOf = y.lastOf := by
  rw [productPath, productPath, wrapper] at meets
  exact Product.lastOf_eq_of_meets described described' name name' meets

theorem eq_of_meets
    (owner : x.isInside = true → y.isInside = true → parsed.name = parsed'.name → file = other)
    (meets : Path.Meets u (p.productPath file parsed x) (p.productPath other parsed' y)) :
    file = other ∧ x = y := by
  rw [productPath, productPath, wrapper] at meets
  exact Product.eq_of_meets described described' name name' owner meets

end Meets

theorem load_eq_ok : Loading.load p.loadOptions t file = (.ok tool, t') ↔ ∃ parsed old,
    Describes t file old parsed ∧ tool = p.placed file parsed ∧
      Loading.makeDirectory p.loadOptions t (parsed.directory p.options.load) = (.ok (), t') := by
  rw [Loading.load_eq_ok]
  constructor
  · rintro ⟨parsed, valid, made, rfl⟩
    obtain ⟨old, described⟩ := Loading.readValid_eq_ok.1 valid
    exact ⟨parsed, old, described, rfl, made⟩
  · rintro ⟨parsed, old, described, rfl, made⟩
    exact ⟨parsed, Loading.readValid_eq_ok.2 ⟨old, described⟩, made, rfl⟩

theorem load_error {f : Failure} (h : Loading.load p.loadOptions t file = (.error f, t')) :
    (Loading.readValid t file = .error f ∧ t' = t) ∨ ∃ parsed old fault,
      Describes t file old parsed ∧
        Loading.makeDirectory p.loadOptions t (parsed.directory p.options.load) =
          (.error fault, t') := by
  unfold Loading.load at h
  split at h
  · rename_i invalid
    cases h
    exact .inl ⟨invalid, rfl⟩
  · rename_i parsed valid
    obtain ⟨old, described⟩ := Loading.readValid_eq_ok.1 valid
    simp only at h
    split at h
    · rename_i fault _ made
      cases h
      exact .inr ⟨parsed, old, fault, described, made⟩
    · cases h

theorem Describes.unique {old' : String} {parsed' : Tool} (h : Describes t file old parsed)
    (h' : Describes t file old' parsed') : old = old' ∧ parsed = parsed' := by
  cases h.1.symm.trans h'.1
  cases h.2.1.symm.trans h'.2.1
  exact ⟨rfl, rfl⟩

theorem Describes.isName (h : Describes t file old parsed) :
    IsName parsed.name ∧ '\\' ∉ parsed.name.toList :=
  Tool.isName_of_nameDefect?_eq_none (Tool.defect?_eq_none.1 h.2.2).1

theorem makeDirectory_within {made : Except Files.Fault Unit}
    (described : Describes t file old parsed)
    (h : Loading.makeDirectory p.loadOptions t (parsed.directory p.options.load) = (made, t')) :
    Within (MadeAlong t t' (parsed.directory p.options.load)) t t' := by
  have usable := (Tool.defect?_eq_none.1 described.2.2).1
  unfold Loading.makeDirectory at h
  split at h
  · have trimmed := (Tool.directory_of_nameDefect?_eq_none usable p.options.load).2
    exact Files.Tree.createDirectoriesFrom_within (.inl trimmed) h
  · cases h
    exact .refl _ t

theorem createDirectories_of_real (real : p.options.dryRun = false) :
    p.loadOptions.createDirectories = true := by
  simp [loadOptions, real]

theorem isDirectory_of_made (real : p.options.dryRun = false)
    (described : Describes t file old parsed)
    (made : Loading.makeDirectory p.loadOptions t (parsed.directory p.options.load) =
      (.ok (), t')) :
    t'.isDirectory (parsed.directory p.options.load) = true := by
  have usable := (Tool.defect?_eq_none.1 described.2.2).1
  obtain ⟨nonempty, slash⟩ := Tool.directory_of_nameDefect?_eq_none usable p.options.load
  rw [Loading.makeDirectory, if_pos (createDirectories_of_real real)] at made
  exact Files.Tree.createDirectoriesFrom_isDirectory nonempty slash made

theorem writeGenerated_within {text : String} {r : Except Failure GeneratedFile}
    (h : p.writeGenerated t tool text = (r, t')) :
    Within (Leads t' (p.renderer.generatedPath tool)) t t' := by
  unfold writeGenerated at h
  dsimp only at h
  split at h
  · cases h
    exact .refl _ t
  · split at h
    · cases h
      exact .refl _ t
    · rename_i written
      cases h
      exact Files.Tree.writeText_within written

theorem archiveOne_within {synchronizer : Synchronizer} {i : Nat} {r : Reference} :
    Within (Leads (synchronizer.archiveOne tool t i r).2 (tool.referencePath i)) t
      (synchronizer.archiveOne tool t i r).2 := by
  rw [Synchronizer.archiveOne_eq]
  cases synchronizer.textFor t r with
  | error f => exact .refl _ t
  | ok text =>
    cases target : t.fileTarget (tool.referencePath i) with
    | error fault => exact .refl _ t
    | ok at_ => exact Files.Tree.writeText_within (Files.Tree.writeText_eq_ok.2 ⟨at_, target, rfl⟩)

theorem archiveFrom_within (synchronizer : Synchronizer) (tool : Tool) (t : Tree) (first : Nat)
    (references : List Reference) : Within
      (fun at_ => ∃ i, first ≤ i ∧ i < first + references.length ∧
        Leads (synchronizer.archiveFrom tool t first references).2 (tool.referencePath i) at_)
      t (synchronizer.archiveFrom tool t first references).2 := by
  induction references generalizing t first with
  | nil => exact .refl _ t
  | cons r rest ih =>
    rw [Synchronizer.archiveFrom_cons]
    have others := ih (synchronizer.archiveOne tool t first r).2 (first + 1)
    refine (archiveOne_within.mono fun at_ leads => ?_).trans (others.mono fun at_ among => ?_)
    · exact ⟨first, Nat.le_refl _, by simp, leads.mono others.grows⟩
    · obtain ⟨i, low, high, leads⟩ := among
      exact ⟨i, by omega, by simp only [List.length_cons]; omega, leads⟩

theorem archiveReferences_within {references : List ReferenceOutcome}
    (h : p.archiveReferences t tool = (references, t')) :
    Within (fun at_ => ∃ i < tool.references.length, Leads t' (tool.referencePath i) at_) t t' := by
  unfold archiveReferences at h
  split at h
  · cases h
    exact .refl _ t
  · split at h
    · cases h
      exact .refl _ t
    · have all := archiveFrom_within p.synchronizer tool t 0 tool.references
      obtain rfl : (p.synchronizer.archiveFrom tool t 0 tool.references).2 = t' :=
        congrArg Prod.snd h
      refine all.mono fun at_ among => ?_
      obtain ⟨i, _, high, leads⟩ := among
      exact ⟨i, by omega, leads⟩

theorem save_within {dryRun : Bool} {r : Except Failure Saving.Outcome}
    (h : Saving.save t tool dryRun = (r, t')) :
    Within
      (fun at_ => ∃ old, t.readText tool.definitionFile = .ok old ∧
        Leads t' (Saving.destination tool.definitionFile
          (Saving.target old tool.canonicalText)) at_)
      t t' := by
  unfold Saving.save Saving.writeBack at h
  split at h
  · cases h
    exact .refl _ t
  · rename_i old read
    dsimp only at h
    split at h
    · cases h
      exact .refl _ t
    · split at h
      · cases h
        exact .refl _ t
      · rename_i written
        cases h
        exact (Files.Tree.writeText_within written).mono fun at_ leads => ⟨old, read, leads⟩

theorem checked_wrapper (wrapper : p.renderer = .wrapper) (calls : Nat) (tool : Tool)
    (verify : Bool) :
    ∃ more, p.renderer.checked calls tool verify =
      (.ok (Wrapper.Source.ofTool tool).text, more) := by
  have same : ∀ n, p.renderer.render n tool = (Wrapper.Source.ofTool tool).text := by
    intro n
    rw [wrapper]
    rfl
  unfold Renderer.checked
  cases verify with
  | false => exact ⟨calls + 1, by simp [same]⟩
  | true => exact ⟨calls + 2, by simp [same]⟩

theorem generated_of_write {text : String} {generated : GeneratedFile}
    (h : p.writeGenerated t tool text = (.ok generated, t')) :
    generated = ⟨p.renderer.generatedPath tool, Hash.sha256Hex text.toUTF8, text.utf8ByteSize⟩ := by
  unfold writeGenerated at h
  dsimp only at h
  split at h
  · exact (Except.ok.inj (Prod.mk.inj h).1).symm
  · split at h
    · exact nomatch (Prod.mk.inj h).1
    · exact (Except.ok.inj (Prod.mk.inj h).1).symm

/-- A reference and where it is archived, whatever becomes of it. -/
def outline (o : ReferenceOutcome) : Nat × Reference × Path := (o.index, o.reference, o.path)

theorem archiveFrom_outline (synchronizer : Synchronizer) (tool : Tool) (t : Tree) (first : Nat)
    (references : List Reference) :
    (synchronizer.archiveFrom tool t first references).1.map outline =
      references.mapIdx fun i r => (first + i, r, tool.referencePath (first + i)) := by
  induction references generalizing t first with
  | nil => rfl
  | cons r rest ih =>
    obtain ⟨status, outcome, _⟩ := synchronizer.archiveOne_cases tool t first r
    have shift : ∀ i, first + 1 + i = first + (i + 1) := fun i => by omega
    rw [Synchronizer.archiveFrom_cons, List.map_cons, ih, outcome, List.mapIdx_cons]
    simp only [outline, shift, Nat.add_zero]

theorem archiveReferences_outline {references : List ReferenceOutcome}
    (h : p.archiveReferences t tool = (references, t')) : references.map outline =
      if p.options.references then tool.references.mapIdx fun i r => (i, r, tool.referencePath i)
      else [] := by
  unfold archiveReferences at h
  cases wanted : p.options.references with
  | false =>
    simp only [wanted, Bool.not_false, if_true] at h
    cases h
    rfl
  | true =>
    simp only [wanted, Bool.not_true, Bool.false_eq_true, if_false] at h
    split at h
    · cases h
      refine List.ext_getElem (by simp [Synchronizer.plan]) fun i _ _ => ?_
      simp [Synchronizer.plan, outline]
    · obtain rfl : (p.synchronizer.archiveFrom tool t 0 tool.references).1 = references :=
        congrArg Prod.fst h
      rw [archiveFrom_outline]
      simp

/-- What is said about a tool that is saved, told by the text of its description. -/
def verdict (tool : Tool) (old : String) (written : Bool) : Saving.Outcome where
  target := Saving.target old tool.canonicalText
  path := Saving.destination tool.definitionFile (Saving.target old tool.canonicalText)
  written := written
  oldLines := Text.lineCount old.toList
  freshLines := Text.lineCount tool.canonicalText.toList

theorem save_eq {dryRun : Bool} (read : t.readText tool.definitionFile = .ok old) :
    Saving.save t tool dryRun =
      if dryRun ∨ (Saving.target old tool.canonicalText = .description ∧ old = tool.canonicalText)
      then (.ok (verdict tool old false), t)
      else
        match t.writeText (Saving.destination tool.definitionFile
            (Saving.target old tool.canonicalText)) tool.canonicalText with
        | .error fault =>
          (.error (.serialize (Saving.destination tool.definitionFile
            (Saving.target old tool.canonicalText)) (.fault fault)), t)
        | .ok t => (.ok (verdict tool old true), t) := by
  unfold Saving.save Saving.writeBack
  cases write : t.writeText (Saving.destination tool.definitionFile
      (Saving.target old tool.canonicalText)) tool.canonicalText with
  | error fault => simp only [read, write, verdict]
  | ok t => simp only [read, write, verdict]

theorem eq_verdict_of_save {dryRun : Bool} {saved : Saving.Outcome}
    (read : t.readText tool.definitionFile = .ok old)
    (h : Saving.save t tool dryRun = (.ok saved, t')) :
    ∃ written, saved = verdict tool old written := by
  rw [save_eq read] at h
  split at h
  · exact ⟨false, (Except.ok.inj (Prod.mk.inj h).1).symm⟩
  · generalize t.writeText _ _ = write at h
    cases write with
    | error fault => exact nomatch (Prod.mk.inj h).1
    | ok made => exact ⟨true, (Except.ok.inj (Prod.mk.inj h).1).symm⟩

theorem description_apart {x : Product} (plain : '/' ∉ p.renderer.extension.toList)
    (described : Describes t file old parsed) (inside : x.isInside = true)
    (h : Leads t' (p.productPath file parsed x) at_) : ¬ Leads t' file at_ := by
  obtain ⟨site, n, rfl, isName⟩ := Files.Tree.join_of_readText described.1
  obtain ⟨base, _, rfl⟩ := Product.above_of_leads described.isName.1 isName plain h
  intro here
  obtain ⟨above, _, same⟩ := here.above (Path.endsWith_join isName)
  have last := congrArg List.getLast? same
  rw [List.getLast?_append, Product.getLast?_tail] at last
  exact Product.name_ne inside (by simpa using last)

theorem Describes.kept {t₁ : Tree} (plain : '/' ∉ p.renderer.extension.toList)
    (described : Describes t file old parsed) (read : t₁.readText file = .ok old)
    (h : Within
      (fun at_ => ∃ x : Product, x.isInside = true ∧
      Leads t' (p.productPath file parsed x) at_) t₁ t') :
    t'.readText file = .ok old :=
  h.readText read fun _ here among => by
    obtain ⟨x, inside, leads⟩ := among
    exact description_apart plain described inside leads here

inductive Due (parsed : Tool) (old : String) : Product → Prop
  | wrapper : Due parsed old .wrapper
  | archive {i : Nat} (bound : i < parsed.references.length) : Due parsed old (.archive i)
  | description
      (same : Text.lineCount old.toList = Text.lineCount parsed.canonicalText.toList) :
      Due parsed old .description
  | sibling (other : Text.lineCount old.toList ≠ Text.lineCount parsed.canonicalText.toList) :
      Due parsed old .sibling

theorem due_destination (p : Pipeline) (file : Path) (parsed : Tool) (old : String) :
    ∃ x, x.isInside = false ∧ Due parsed old x ∧ p.productPath file parsed x =
      Saving.destination file (Saving.target old parsed.canonicalText) := by
  unfold Saving.target
  split
  · rename_i same
    exact ⟨.description, rfl, .description same, rfl⟩
  · rename_i other
    exact ⟨.sibling, rfl, .sibling other, rfl⟩

def DuePlaces (p : Pipeline) (file : Path) (parsed : Tool) (old : String) (t' : Tree)
    (at_ : Location) : Prop :=
  ∃ x, Due parsed old x ∧ Leads t' (p.productPath file parsed x) at_

theorem DuePlaces.mono (grows : Extends Entry.SameKind t t')
    (h : p.DuePlaces file parsed old t at_) : p.DuePlaces file parsed old t' at_ := by
  obtain ⟨x, due, leads⟩ := h
  exact ⟨x, due, leads.mono grows⟩

section Stages

variable {text : String} {generated : GeneratedFile} {references : List ReferenceOutcome}
  {t₁ t₂ t₃ : Tree} {r : Except Failure Saving.Outcome}

theorem Describes.before_save (plain : '/' ∉ p.renderer.extension.toList)
    (described : Describes t file old parsed)
    (write : p.writeGenerated t (p.placed file parsed) text = (.ok generated, t₁))
    (archive : p.archiveReferences t₁ (p.placed file parsed) = (references, t₂)) :
    t₁.readText file = .ok old ∧ t₂.readText file = .ok old := by
  have first : t₁.readText file = .ok old :=
    described.kept plain described.1 <| (writeGenerated_within write).mono fun _ leads =>
      ⟨.wrapper, rfl, leads⟩
  refine ⟨first, described.kept plain first <| (archiveReferences_within archive).mono
    fun _ among => ?_⟩
  obtain ⟨i, _, leads⟩ := among
  exact ⟨.archive i, rfl, leads⟩

theorem stages_within (plain : '/' ∉ p.renderer.extension.toList)
    (described : Describes t file old parsed)
    (write : p.writeGenerated t (p.placed file parsed) text = (.ok generated, t₁))
    (archive : p.archiveReferences t₁ (p.placed file parsed) = (references, t₂))
    (save : Saving.save t₂ (p.placed file parsed) p.options.dryRun = (r, t₃)) :
    Within (p.DuePlaces file parsed old t₃) t t₃ := by
  have first := writeGenerated_within write
  have second := archiveReferences_within archive
  have third := save_within save
  have read := (described.before_save plain write archive).2
  have later := second.grows.sameKind_trans third.grows
  refine (first.mono fun at_ leads => ?_).trans
    ((second.mono fun at_ among => ?_).trans (third.mono fun at_ among => ?_))
  · exact ⟨.wrapper, .wrapper, leads.mono later⟩
  · obtain ⟨i, bound, leads⟩ := among
    exact ⟨.archive i, .archive bound, leads.mono third.grows⟩
  · obtain ⟨found, again, leads⟩ := among
    cases again.symm.trans read
    obtain ⟨x, _, due, path⟩ := p.due_destination file parsed old
    refine ⟨x, due, ?_⟩
    rw [path]
    rwa [placed, Tool.canonicalText_placed_wired] at leads

theorem Produces.within (plain : '/' ∉ p.renderer.extension.toList)
    (described : Describes s.tree file old parsed)
    (h : p.Produces s (p.placed file parsed) result s') :
    Within (p.DuePlaces file parsed old s'.tree) s.tree s'.tree := by
  cases h with
  | unstable render => exact .refl _ _
  | unwritten render write =>
    exact (writeGenerated_within write).mono fun _ leads => ⟨.wrapper, .wrapper, leads⟩
  | unsaved render write archive save => exact stages_within plain described write archive save
  | finished render write archive save => exact stages_within plain described write archive save

end Stages

/-- The work on a description may change what is at the place. -/
def Touches (p : Pipeline) (s : RunState) (file : Path) (t' : Tree) (at_ : Location) : Prop :=
  ∃ parsed old, Describes s.tree file old parsed ∧
    (MadeAlong s.tree t' (parsed.directory p.options.load) at_ ∨
      (s.owners.lookup parsed.name = none ∧ p.DuePlaces file parsed old t' at_))

theorem Touches.mono (grows : Extends Entry.SameKind t t') (h : p.Touches s file t at_) :
    p.Touches s file t' at_ := by
  obtain ⟨parsed, old, described, made | ⟨free, due⟩⟩ := h
  · exact ⟨parsed, old, described, .inl (made.later grows)⟩
  · exact ⟨parsed, old, described, .inr ⟨free, due.mono grows⟩⟩

theorem Describes.made {made : Except Files.Fault Unit} {directory : Path}
    (described : Describes t file old parsed)
    (h : Loading.makeDirectory p.loadOptions t directory = (made, t')) :
    Describes t' file old parsed :=
  ⟨(Loading.makeDirectory_extends h).readText described.1, described.2⟩

theorem Works.within (plain : '/' ∉ p.renderer.extension.toList) (h : p.Works s file result s') :
    Within (p.Touches s file s'.tree) s.tree s'.tree := by
  cases h with
  | unloaded load =>
    rcases load_error load with ⟨_, rfl⟩ | ⟨parsed, old, _, described, made⟩
    · exact .refl _ _
    · exact (makeDirectory_within described made).mono fun _ along =>
        ⟨parsed, old, described, .inl along⟩
  | taken load owned =>
    obtain ⟨parsed, old, described, rfl, made⟩ := load_eq_ok.1 load
    exact (makeDirectory_within described made).mono fun _ along =>
      ⟨parsed, old, described, .inl along⟩
  | produced load free produces =>
    obtain ⟨parsed, old, described, rfl, made⟩ := load_eq_ok.1 load
    have first := makeDirectory_within described made
    have second := produces.within plain (described.made made)
    refine (first.mono fun at_ along => ?_).trans (second.mono fun at_ due => ?_)
    · exact ⟨parsed, old, described, .inl (along.later second.grows)⟩
    · exact ⟨parsed, old, described, .inr ⟨free, due⟩⟩

theorem Works.owners (h : p.Works s file result s') : s'.owners = s.owners ∨
    ∃ parsed old, Describes s.tree file old parsed ∧ s.owners.lookup parsed.name = none ∧
      s'.owners = (parsed.name, file) :: s.owners := by
  cases h with
  | unloaded load => exact .inl rfl
  | taken load owned => exact .inl rfl
  | produced load free produces =>
    obtain ⟨parsed, old, described, rfl, _⟩ := load_eq_ok.1 load
    refine .inr ⟨parsed, old, described, free, ?_⟩
    cases produces <;> rfl

end Toolwright.Pipeline
