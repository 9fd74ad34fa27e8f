import Toolwright.Proofs.Files.Blocked
import Toolwright.Proofs.Files.Level
import Toolwright.Proofs.Run.Course
import Toolwright.Proofs.Saving

/-!
Descriptions that are settled. A tree is settled for a description when working on it comes to the
same end again and writes nothing new but wrappers among some files. Working on settled descriptions
keeps the trees level, and a description that was worked on is settled as long as its products stay.
-/

namespace Toolwright

open Files (Entry IsName Location Tree)
open Files.Tree (Above Blocked Extends HasHome Leads Level Within)

namespace Pipeline

variable {p : Pipeline} {X : Location → Prop} {T u : Tree} {file : Path} {parsed : Tool}
  {old : String}

/-- Working on a reference again finds no text, or no place for it, or it is there already. -/
def Archived (p : Pipeline) (T : Tree) (file : Path) (parsed : Tool) (i : Nat) (r : Reference) :
    Prop :=
  ∀ text, p.synchronizer.textFor T r = .ok text →
    (∃ fault, T.fileTarget (p.productPath file parsed (.archive i)) = .error fault) ∨
      ∃ at_, T.locate (p.productPath file parsed (.archive i)) =
        .ok (.entry at_ (.file text.toUTF8))

/-- The wrapper of a tool is there, with its text or in `X`, and its references are dealt with. -/
structure Made (p : Pipeline) (X : Location → Prop) (T : Tree) (file : Path) (parsed : Tool) :
    Prop where
  wrapper : ∃ at_ content,
    T.locate (p.productPath file parsed .wrapper) = .ok (.entry at_ (.file content)) ∧
      (content = (Wrapper.Source.ofTool (p.placed file parsed)).text.toUTF8 ∨ X at_)
  archives : p.options.references = true → ∀ i r, parsed.references[i]? = some r →
    p.Archived T file parsed i r

/-- The description is valid, and the directory of its tool is there. -/
structure Ready (p : Pipeline) (T : Tree) (file : Path) (old : String) (parsed : Tool) : Prop where
  described : Describes T file old parsed
  there : T.isDirectory (parsed.directory p.options.load) = true

/-- The tree has all that working on the description would make: whether it succeeds, and whose the
names are then. -/
inductive Settled (p : Pipeline) (X : Location → Prop) (T : Tree) (owners : List (String × Path))
    (file : Path) : Bool → List (String × Path) → Prop
  | invalid {f : Failure} (fails : Loading.readValid T file = .error f) :
      Settled p X T owners file false owners
  | blocked {old : String} {parsed : Tool} (described : Describes T file old parsed)
      (blocked : Blocked T (parsed.directory p.options.load)) :
      Settled p X T owners file false owners
  | taken {old : String} {parsed : Tool} {owner : Path} (ready : p.Ready T file old parsed)
      (owned : owners.lookup parsed.name = some owner) : Settled p X T owners file false owners
  | unwritten {old : String} {parsed : Tool} {fault : Files.Fault}
    (ready : p.Ready T file old parsed)
      (free : owners.lookup parsed.name = none)
      (refused : T.fileTarget (p.productPath file parsed .wrapper) = .error fault) :
      Settled p X T owners file false ((parsed.name, file) :: owners)
  | unsaved {old : String} {parsed : Tool} {fault : Files.Fault} (ready : p.Ready T file old parsed)
      (free : owners.lookup parsed.name = none) (made : p.Made X T file parsed)
      (target : Saving.target old parsed.canonicalText = .sibling)
      (refused : T.fileTarget (Saving.siblingPath file) = .error fault) :
      Settled p X T owners file false ((parsed.name, file) :: owners)
  | saved {old : String} {parsed : Tool} (ready : p.Ready T file old parsed)
      (free : owners.lookup parsed.name = none) (made : p.Made X T file parsed)
      (saved : old = parsed.canonicalText ∨
        (Saving.target old parsed.canonicalText = .sibling ∧ ∃ at_,
          T.locate (Saving.siblingPath file) =
            .ok (.entry at_ (.file parsed.canonicalText.toUTF8)))) :
      Settled p X T owners file true ((parsed.name, file) :: owners)

section Level

variable (steady : p.synchronizer.fetcher.IsSteady) (wellFormed : T.WellFormed)

include steady wellFormed

theorem Archived.level {i : Nat} {r : Reference} (h : p.Archived T file parsed i r)
    (level : Level X T u) :
    Level X T (p.synchronizer.archiveOne (p.placed file parsed) u i r).2 := by
  rw [Synchronizer.archiveOne_eq, Synchronizer.textFor_steady steady u T]
  cases hasText : p.synchronizer.textFor T r with
  | error f => exact level
  | ok text =>
    rcases h text hasText with ⟨fault, refused⟩ | ⟨at_, way⟩
    · have target : u.fileTarget ((p.placed file parsed).referencePath i) = .error fault :=
        (level.fileTarget _).trans refused
      rw [target]
      exact level
    · obtain ⟨u', write, level'⟩ := level.writeText wellFormed way (.inl rfl)
      obtain ⟨at', target, rfl⟩ := Files.Tree.writeText_eq_ok.1 write
      have target' : u.fileTarget ((p.placed file parsed).referencePath i) = .ok at' := target
      rw [target']
      exact level'

theorem archiveFrom_level {references : List Reference} {first : Nat}
    (h : ∀ i r, references[i]? = some r → p.Archived T file parsed (first + i) r)
    (level : Level X T u) :
    Level X T (p.synchronizer.archiveFrom (p.placed file parsed) u first references).2 := by
  induction references generalizing u first with
  | nil => exact level
  | cons r rest ih =>
    rw [Synchronizer.archiveFrom_cons]
    refine ih (fun i r' held => ?_) ((h 0 r rfl).level steady wellFormed level)
    have shift : first + 1 + i = first + (i + 1) := by omega
    rw [shift]
    exact h (i + 1) r' held

theorem Made.archive (real : p.options.dryRun = false) (h : p.Made X T file parsed)
    (level : Level X T u) :
    Level X T (p.archiveReferences u (p.placed file parsed)).2 := by
  unfold archiveReferences
  cases wanted : p.options.references with
  | false => exact level
  | true =>
    simp only [Bool.not_true, Bool.false_eq_true, if_false, real]
    exact archiveFrom_level steady wellFormed (fun i r held => by
      rw [Nat.zero_add]
      exact h.archives wanted i r held) level

end Level

theorem writeGenerated_real (p : Pipeline) (real : p.options.dryRun = false) (t : Tree)
    (tool : Tool) (text : String) : p.writeGenerated t tool text =
      match t.writeText (p.renderer.generatedPath tool) text with
      | .error fault => (.error (.render tool.definitionFileName
          (.cannotWrite (p.renderer.generatedPath tool) fault)), t)
      | .ok t => (.ok ⟨p.renderer.generatedPath tool, Hash.sha256Hex text.toUTF8,
          text.utf8ByteSize⟩, t) := by
  unfold writeGenerated
  have wet : ¬ p.options.dryRun = true := by simp [real]
  refine (if_neg wet).trans ?_
  generalize t.writeText _ _ = write
  cases write <;> rfl

theorem Made.stages (real : p.options.dryRun = false) (wrapper : p.renderer = .wrapper)
    (steady : p.synchronizer.fetcher.IsSteady) (wellFormed : T.WellFormed)
    (h : p.Made X T file parsed) (level : Level X T u) (calls : Nat) :
    ∃ calls' generated t₁ references t₂,
      p.renderer.checked calls (p.placed file parsed) p.options.verifyDeterminism =
        (.ok (Wrapper.Source.ofTool (p.placed file parsed)).text, calls') ∧
      p.writeGenerated u (p.placed file parsed)
          (Wrapper.Source.ofTool (p.placed file parsed)).text = (.ok generated, t₁) ∧
      p.archiveReferences t₁ (p.placed file parsed) = (references, t₂) ∧ Level X T t₂ := by
  obtain ⟨calls', render⟩ :=
    checked_wrapper wrapper calls (p.placed file parsed) p.options.verifyDeterminism
  obtain ⟨at_, content, way, either⟩ := h.wrapper
  obtain ⟨t₁, written, level₁⟩ := level.writeText wellFormed way either
  have written' : u.writeText (p.renderer.generatedPath (p.placed file parsed))
      (Wrapper.Source.ofTool (p.placed file parsed)).text = .ok t₁ := written
  have write := p.writeGenerated_real real u (p.placed file parsed)
    (Wrapper.Source.ofTool (p.placed file parsed)).text
  rw [written'] at write
  exact ⟨calls', _, t₁, _, _, render, write, rfl, h.archive steady wellFormed real level₁⟩

theorem canonicalText_placed : (p.placed file parsed).canonicalText = parsed.canonicalText :=
  Tool.canonicalText_placed_wired _ _ _

theorem Describes.congr {t t' : Tree} (h : Describes t file old parsed)
    (same : t'.readText file = t.readText file) : Describes t' file old parsed :=
  ⟨same.trans h.1, h.2⟩

theorem Ready.load (real : p.options.dryRun = false) (ready : p.Ready T file old parsed)
    (grows : Extends Entry.SameKind T u) (same : u.readText file = T.readText file) :
    Loading.load p.loadOptions u file = (.ok (p.placed file parsed), u) := by
  have usable := (Tool.defect?_eq_none.1 ready.described.2.2).1
  obtain ⟨nonempty, slash⟩ := Tool.directory_of_nameDefect?_eq_none usable p.options.load
  refine load_eq_ok.2 ⟨parsed, old, ready.described.congr same, rfl, ?_⟩
  rw [Loading.makeDirectory, if_pos (createDirectories_of_real real)]
  exact Files.Tree.createDirectories_of_isDirectory nonempty slash (grows.isDirectory ready.there)

theorem load_blocked (real : p.options.dryRun = false) (described : Describes u file old parsed)
    (blocked : Blocked u (parsed.directory p.options.load)) :
    ∃ f, Loading.load p.loadOptions u file = (.error f, u) := by
  have usable := (Tool.defect?_eq_none.1 described.2.2).1
  obtain ⟨nonempty, slash⟩ := Tool.directory_of_nameDefect?_eq_none usable p.options.load
  obtain ⟨fault, fails⟩ := blocked.createDirectories (.inl slash) nonempty
  have made : Loading.makeDirectory p.loadOptions u (parsed.directory p.loadOptions) =
      (.error fault, u) := by
    rw [Loading.makeDirectory, if_pos (createDirectories_of_real real)]
    exact fails
  have valid := Loading.readValid_eq_ok.2 ⟨old, described⟩
  exact ⟨_, by simp only [Loading.load, valid, made]; rfl⟩

theorem save_level (wellFormed : T.WellFormed) (level : Level X T u)
    (read : u.readText file = .ok old)
    (saved : old = parsed.canonicalText ∨
      (Saving.target old parsed.canonicalText = .sibling ∧ ∃ at_,
        T.locate (Saving.siblingPath file) =
          .ok (.entry at_ (.file parsed.canonicalText.toUTF8)))) :
    ∃ outcome u', Saving.save u (p.placed file parsed) false = (.ok outcome, u') ∧
      Level X T u' := by
  have read' : u.readText (p.placed file parsed).definitionFile = .ok old := read
  rw [save_eq read', canonicalText_placed]
  rcases saved with rfl | ⟨target, at_, way⟩
  · rw [if_pos (.inr ⟨by simp [Saving.target], rfl⟩)]
    exact ⟨_, u, rfl, level⟩
  · rw [target, if_neg (by simp)]
    obtain ⟨u', write, level'⟩ := level.writeText wellFormed way (.inl rfl)
    have write' : u.writeText (Saving.destination (p.placed file parsed).definitionFile .sibling)
        parsed.canonicalText = .ok u' := write
    rw [write']
    exact ⟨_, u', rfl, level'⟩

theorem save_refused {fault : Files.Fault} (level : Level X T u) (read : u.readText file = .ok old)
    (target : Saving.target old parsed.canonicalText = .sibling)
    (refused : T.fileTarget (Saving.siblingPath file) = .error fault) :
    ∃ f, Saving.save u (p.placed file parsed) false = (.error f, u) := by
  have read' : u.readText (p.placed file parsed).definitionFile = .ok old := read
  have write : u.writeText (Saving.destination (p.placed file parsed).definitionFile .sibling)
      parsed.canonicalText = .error fault :=
    Files.Tree.writeText_eq_error.2 ((level.fileTarget _).trans refused)
  rw [save_eq read', canonicalText_placed, target, if_neg (by simp), write]
  exact ⟨_, rfl⟩

/-- Working on a settled description keeps the trees level. -/
theorem Settled.works {owners owners' : List (String × Path)} {ok : Bool} {s : RunState}
    (real : p.options.dryRun = false) (wrapper : p.renderer = .wrapper)
    (steady : p.synchronizer.fetcher.IsSteady) (wellFormed : T.WellFormed)
    (apart : ∀ at_, Leads T file at_ → ¬ X at_) (h : p.Settled X T owners file ok owners')
    (level : Level X T s.tree) (same : s.owners = owners) :
    ∃ result s', p.Works s file result s' ∧ result.toOption.isSome = ok ∧ Level X T s'.tree ∧
      s'.owners = owners' := by
  subst same
  have grows := level.within.grows
  have read : s.tree.readText file = T.readText file := level.readText apart
  -- one case for each way to be settled: the stage that ended the first work ends this one
  cases h with
  | @invalid f fails =>
    have fails' : Loading.readValid s.tree file = Loading.readValid T file := by
      unfold Loading.readValid
      rw [read]
    have load : Loading.load p.loadOptions s.tree file = (.error f, s.tree) := by
      simp only [Loading.load, fails', fails]
    exact ⟨_, _, .unloaded load, rfl, level, rfl⟩
  | blocked described blocked =>
    obtain ⟨f, load⟩ := load_blocked real (described.congr read) (blocked.mono grows)
    exact ⟨_, _, .unloaded load, rfl, level, rfl⟩
  | taken ready owned =>
    have load := ready.load real grows read
    exact ⟨_, _, .taken load owned, rfl, level, rfl⟩
  | @unwritten _ parsed fault ready free refused =>
    have load := ready.load real grows read
    obtain ⟨calls, render⟩ :=
      checked_wrapper wrapper s.calls (p.placed file parsed) p.options.verifyDeterminism
    have refused' : s.tree.writeText (p.renderer.generatedPath (p.placed file parsed))
        (Wrapper.Source.ofTool (p.placed file parsed)).text = .error fault :=
      Files.Tree.writeText_eq_error.2 ((level.fileTarget _).trans refused)
    have write := p.writeGenerated_real real s.tree (p.placed file parsed)
      (Wrapper.Source.ofTool (p.placed file parsed)).text
    rw [refused'] at write
    exact ⟨_, _, .produced load free (.unwritten render write), rfl, level, rfl⟩
  | unsaved ready free made target refused =>
    obtain ⟨calls, generated, t₁, references, t₂, render, write, archive, level'⟩ :=
      made.stages real wrapper steady wellFormed level s.calls
    have read' := (level'.readText apart).trans ready.described.1
    obtain ⟨f, save⟩ := save_refused level' read' target refused
    rw [← real] at save
    exact ⟨_, _, .produced (ready.load real grows read) free (.unsaved render write archive save),
      rfl, level', rfl⟩
  | saved ready free made saved =>
    obtain ⟨calls, generated, t₁, references, t₂, render, write, archive, level'⟩ :=
      made.stages real wrapper steady wellFormed level s.calls
    have read' := (level'.readText apart).trans ready.described.1
    obtain ⟨outcome, t₃, save, level''⟩ := save_level wellFormed level' read' saved
    rw [← real] at save
    exact ⟨_, _, .produced (ready.load real grows read) free (.finished render write archive save),
      rfl, level'', rfl⟩

end Pipeline

end Toolwright
