import Toolwright.Proofs.Files.Overlay
import Toolwright.Proofs.Run.Turn

/-!
A description worked on alone and among others. The same comes of it in a tree that has more in it,
as long as its own places are as they were: the places of its products, and those on the way to the
directory of its tool.
-/

namespace Toolwright.Pipeline

open Files (Entry IsName Location Tree)
open Files.Tree (Extends Follows HasHome Leads Standing)

variable {p : Pipeline} {s s' : RunState} {t u a v : Tree} {file : Path} {parsed tool : Tool}
  {old : String} {own : Location → Prop}

def OwnPlaces (p : Pipeline) (t : Tree) (file : Path) (parsed : Tool) (at_ : Location) : Prop :=
  ∃ x, at_ = t.aim (p.productPath file parsed x)

/-- The same comes out of a stage in both trees, and what it does in one it does in the other. -/
def Alike {α : Type} (own : Location → Prop) (t u : Tree) (x y : α × Tree) : Prop :=
  y.1 = x.1 ∧ Follows own t u x.2 y.2

theorem standing_product {x : Product} (plain : '/' ∉ p.renderer.extension.toList)
    (described : Describes a file old parsed)
    (there : x.isInside = true → a.isDirectory (parsed.directory p.options.load) = true) :
    Standing a (p.productPath file parsed x) := by
  obtain ⟨site, n, rfl, isName⟩ := Files.Tree.join_of_readText described.1
  have name := Product.isName_name isName plain x
  rw [productPath, placed, Product.path_eq p.renderer isName x]
  cases inside : x.isInside with
  | true =>
    obtain ⟨at_, way⟩ := Files.Tree.isDirectory_iff.1 (there inside)
    exact Files.Tree.standing_of_above (Path.endsWith_join name) (Files.Tree.above_of_locate way)
  | false =>
    obtain ⟨at_, way⟩ := Files.Tree.readText_eq_ok.1 described.1
    obtain ⟨above, leads, _⟩ := Leads.above (Path.endsWith_join isName) ⟨_, way⟩
    exact Files.Tree.standing_of_above (Path.endsWith_join name) leads

section Stages

variable (h : Follows own t u a v)

include h

theorem writeGenerated_alike
    (stands : p.options.dryRun = false → Standing a (p.renderer.generatedPath tool))
    (mine : own (a.aim (p.renderer.generatedPath tool))) (text : String) :
    Alike own t u (p.writeGenerated a tool text) (p.writeGenerated v tool text) := by
  unfold writeGenerated
  cases dry : p.options.dryRun with
  | true => exact ⟨rfl, h⟩
  | false =>
    rcases h.writeText (stands dry) mine text with
      ⟨fault, refused, refused'⟩ | ⟨a', v', made, made', later⟩
    · simp only [Bool.false_eq_true, if_false, refused, refused']
      exact ⟨rfl, h⟩
    · simp only [Bool.false_eq_true, if_false, made, made']
      exact ⟨rfl, later⟩

theorem archiveOne_alike {synchronizer : Synchronizer} (steady : synchronizer.fetcher.IsSteady)
    {i : Nat}
    (stands : Standing a (tool.referencePath i)) (mine : own (a.aim (tool.referencePath i)))
    (r : Reference) :
    Alike own t u (synchronizer.archiveOne tool a i r) (synchronizer.archiveOne tool v i r) := by
  rw [Synchronizer.archiveOne_eq, Synchronizer.archiveOne_eq,
    Synchronizer.textFor_steady steady v a, h.fileTarget stands mine]
  cases synchronizer.textFor a r with
  | error f => exact ⟨rfl, h⟩
  | ok text =>
    cases target : a.fileTarget (tool.referencePath i) with
    | error fault => exact ⟨rfl, h⟩
    | ok at_ => exact ⟨rfl, h.put_target stands target _⟩

theorem archiveFrom_alike {synchronizer : Synchronizer} (steady : synchronizer.fetcher.IsSteady)
    (stands : ∀ i, Standing a (tool.referencePath i))
    (mine : ∀ i, own (a.aim (tool.referencePath i))) (first : Nat) (references : List Reference) :
    Alike own t u (synchronizer.archiveFrom tool a first references)
      (synchronizer.archiveFrom tool v first references) := by
  induction references generalizing a v first with
  | nil => exact ⟨rfl, h⟩
  | cons r rest ih =>
    obtain ⟨same, later⟩ := archiveOne_alike h steady (stands first) (mine first) r
    have grows := (@archiveOne_within tool a synchronizer first r).grows
    obtain ⟨others, last⟩ := ih later (fun i => (stands i).mono grows)
      (fun i => by rw [Files.Tree.aim_congr grows.home]; exact mine i) (first + 1)
    rw [Synchronizer.archiveFrom_cons, Synchronizer.archiveFrom_cons, same, others]
    exact ⟨rfl, last⟩

theorem archiveReferences_alike (steady : p.synchronizer.fetcher.IsSteady)
    (stands : p.options.dryRun = false → ∀ i, Standing a (tool.referencePath i))
    (mine : ∀ i, own (a.aim (tool.referencePath i))) :
    Alike own t u (p.archiveReferences a tool) (p.archiveReferences v tool) := by
  unfold archiveReferences
  cases p.options.references with
  | false => exact ⟨rfl, h⟩
  | true =>
    cases dry : p.options.dryRun with
    | true => exact ⟨rfl, h⟩
    | false => exact archiveFrom_alike h steady (stands dry) mine 0 tool.references

theorem save_alike {dryRun : Bool} (stands : Standing a tool.definitionFile)
    (beside : Standing a (Saving.siblingPath tool.definitionFile))
    (mine : own (a.aim tool.definitionFile))
    (mine' : own (a.aim (Saving.siblingPath tool.definitionFile))) :
    Alike own t u (Saving.save a tool dryRun) (Saving.save v tool dryRun) := by
  have read : v.readText tool.definitionFile = a.readText tool.definitionFile := by
    unfold Tree.readText
    rw [h.read stands mine]
  cases held : a.readText tool.definitionFile with
  | error fault =>
    unfold Saving.save Saving.writeBack
    simp only [read, held]
    exact ⟨rfl, h⟩
  | ok old =>
    rw [save_eq held, save_eq (read.trans held)]
    have written : ∀ target, Standing a (Saving.destination tool.definitionFile target) ∧
        own (a.aim (Saving.destination tool.definitionFile target)) := by
      rintro (_ | _)
      · exact ⟨stands, mine⟩
      · exact ⟨beside, mine'⟩
    split
    · exact ⟨rfl, h⟩
    · obtain ⟨stands', mine⟩ := written (Saving.target old tool.canonicalText)
      rcases h.writeText stands' mine tool.canonicalText with
        ⟨fault, refused, refused'⟩ | ⟨a', v', made, made', later⟩
      · simp only [refused, refused']
        exact ⟨rfl, h⟩
      · simp only [made, made']
        exact ⟨rfl, later⟩

end Stages

theorem produce_alike {s₁ s₂ : RunState} (wrapper : p.renderer = .wrapper)
    (steady : p.synchronizer.fetcher.IsSteady) (grows : Extends Entry.SameKind t s₁.tree)
    (described : Describes s₁.tree file old parsed)
    (there : p.options.dryRun = false →
      s₁.tree.isDirectory (parsed.directory p.options.load) = true)
    (h : Follows (p.OwnPlaces t file parsed) t u s₁.tree s₂.tree) :
    (p.produce s₂ (p.placed file parsed)).1 = (p.produce s₁ (p.placed file parsed)).1 ∧
      Follows (p.OwnPlaces t file parsed) t u (p.produce s₁ (p.placed file parsed)).2.2.tree
        (p.produce s₂ (p.placed file parsed)).2.2.tree := by
  have plain := plain_of_wrapper wrapper
  -- each stage may begin where its product is written, in a tree that has only grown since
  have outside : ∀ x : Product, x.isInside = false →
      Standing s₁.tree (p.productPath file parsed x) :=
    fun x out => standing_product plain described fun inside => nomatch out.symm.trans inside
  have inside : p.options.dryRun = false → ∀ x : Product,
      Standing s₁.tree (p.productPath file parsed x) :=
    fun real x => standing_product plain described fun _ => there real
  have mine : ∀ {a : Tree}, Extends Entry.SameKind s₁.tree a → ∀ x : Product,
      p.OwnPlaces t file parsed (a.aim (p.productPath file parsed x)) :=
    fun later x => ⟨x, Files.Tree.aim_congr (later.home.trans grows.home) _⟩
  obtain ⟨calls₁, checked₁⟩ :=
    checked_wrapper wrapper s₁.calls (p.placed file parsed) p.options.verifyDeterminism
  obtain ⟨calls₂, checked₂⟩ :=
    checked_wrapper wrapper s₂.calls (p.placed file parsed) p.options.verifyDeterminism
  have first := writeGenerated_alike h (fun real => inside real .wrapper)
    (mine (.sameKind_refl _) .wrapper)
    (Wrapper.Source.ofTool (p.placed file parsed)).text
  unfold produce generate
  rcases write₁ : p.writeGenerated s₁.tree (p.placed file parsed)
    (Wrapper.Source.ofTool (p.placed file parsed)).text with ⟨written, a₁⟩
  rcases write₂ : p.writeGenerated s₂.tree (p.placed file parsed)
    (Wrapper.Source.ofTool (p.placed file parsed)).text with ⟨written', v₁⟩
  rw [write₁, write₂] at first
  obtain ⟨rfl, h₁⟩ := first
  simp only [checked₁, checked₂, write₁, write₂]
  have grows₁ := (writeGenerated_within write₁).grows
  cases written' with
  | error f => exact ⟨rfl, h₁⟩
  | ok generated =>
    have second := archiveReferences_alike h₁ steady
      (fun real i => (inside real (.archive i)).mono grows₁) (fun i => mine grows₁ (.archive i))
    rcases archive₁ : p.archiveReferences a₁ (p.placed file parsed) with ⟨references, a₂⟩
    rcases archive₂ : p.archiveReferences v₁ (p.placed file parsed) with ⟨references', v₂⟩
    rw [archive₁, archive₂] at second
    obtain ⟨rfl, h₂⟩ := second
    have grows₂ := grows₁.sameKind_trans (archiveReferences_within archive₁).grows
    have third : Alike _ t u (Saving.save a₂ (p.placed file parsed) p.options.dryRun)
        (Saving.save v₂ (p.placed file parsed) p.options.dryRun) :=
      save_alike h₂ ((outside .description rfl).mono grows₂) ((outside .sibling rfl).mono grows₂)
        (mine grows₂ .description) (mine grows₂ .sibling)
    rcases save₁ : Saving.save a₂ (p.placed file parsed) p.options.dryRun with ⟨saved, a₃⟩
    rcases save₂ : Saving.save v₂ (p.placed file parsed) p.options.dryRun with ⟨saved', v₃⟩
    rw [save₁, save₂] at third
    obtain ⟨rfl, h₃⟩ := third
    simp only [archive₁, archive₂, save₁, save₂]
    cases saved' with
    | error f => exact ⟨rfl, h₃⟩
    | ok saved => exact ⟨rfl, h₃⟩

/-- The output root steps upwards only out of what is there. -/
def RootClimbs (p : Pipeline) (t : Tree) : Prop :=
  t.Climbs (t.beginOf p.options.load.outputRoot.isAbsolute)
    (Files.Tree.movesOf p.options.load.outputRoot)

/-- Where a directory has to be made for a description, another tree has no file. -/
def Open (p : Pipeline) (t u : Tree) (parsed : Tool) : Prop :=
  ∀ at_, at_ <+: t.aim (parsed.directory p.options.load) → t.get? at_ = none →
    ∀ content, u.get? at_ ≠ some (.file content)

theorem climbs_directory (climbs : p.RootClimbs t) (name : IsName parsed.name) :
    t.Climbs (t.beginOf (parsed.directory p.options.load).isAbsolute)
      (Files.Tree.movesOf (parsed.directory p.options.load)) := by
  rw [Tool.directory, Path.isAbsolute_join name, Files.Tree.movesOf_join name]
  intro before after split
  rcases List.eq_nil_or_concat' after with rfl | ⟨front, last, rfl⟩
  · cases (List.append_inj' split rfl).2
  · rw [← List.cons_append, ← List.append_assoc] at split
    exact climbs before front (List.append_inj' split rfl).1

theorem createDirectories_alike (described : Describes t file old parsed) (home : HasHome t)
    (rooted : u.Rooted) (climbs : p.RootClimbs t) (open_ : p.Open t u parsed)
    (h : Follows own t u t u) : Alike own t u
      (t.createDirectories (parsed.directory p.options.load))
      (u.createDirectories (parsed.directory p.options.load)) := by
  have name := described.isName.1
  obtain ⟨nonempty, trimmed⟩ := Tool.directory_of_nameDefect?_eq_none
    (Tool.defect?_eq_none.1 described.2.2).1 p.options.load
  by_cases admitted : Files.Tree.Admitted (parsed.directory p.options.load)
  · have parts : Files.Tree.partsOf (parsed.directory p.options.load) =
        p.options.load.outputRoot.front ++ [.name parsed.name] := Path.partsOf_join name
    have down := climbs_directory climbs name
    have begins : u.beginOf (parsed.directory p.options.load).isAbsolute =
        t.beginOf (parsed.directory p.options.load).isAbsolute := by
      rw [Files.Tree.beginOf, Files.Tree.beginOf, h.grows.home]
    have held : t.get? (t.beginOf (parsed.directory p.options.load).isAbsolute) =
        some .directory := by
      unfold Files.Tree.beginOf
      split
      · exact Files.Tree.get?_nil t
      · exact home
    rw [Files.Tree.createDirectories_eq_lay home h.rooted admitted parts down,
      Files.Tree.createDirectories_eq_lay (home.mono h.grows) rooted admitted parts
        (by rw [begins]; exact down.mono h.grows), begins]
    refine h.lay held down fun at_ inside => ?_
    rw [← Files.Tree.aim_eq_moves] at inside
    exact open_ at_ inside
  · obtain ⟨fault, refused⟩ :=
      Files.Tree.createDirectories_of_not_admitted nonempty trimmed admitted
    rw [refused, refused]
    exact ⟨rfl, h⟩

theorem makeDirectory_alike (described : Describes t file old parsed) (home : HasHome t)
    (rooted : u.Rooted) (climbs : p.RootClimbs t) (open_ : p.Open t u parsed)
    (h : Follows own t u t u) : Alike own t u
      (Loading.makeDirectory p.loadOptions t (parsed.directory p.options.load))
      (Loading.makeDirectory p.loadOptions u (parsed.directory p.options.load)) := by
  unfold Loading.makeDirectory
  split
  · exact createDirectories_alike described home rooted climbs open_ h
  · exact ⟨rfl, h⟩

theorem load_alike (plain : '/' ∉ p.renderer.extension.toList)
    (described : Describes t file old parsed)
    (home : HasHome t) (rooted : u.Rooted) (climbs : p.RootClimbs t) (open_ : p.Open t u parsed)
    (h : Follows (p.OwnPlaces t file parsed) t u t u) :
    Describes u file old parsed ∧ Alike (p.OwnPlaces t file parsed) t u
      (Loading.load p.loadOptions t file) (Loading.load p.loadOptions u file) := by
  have read : u.readText file = t.readText file := by
    have stands : Standing t (p.productPath file parsed .description) :=
      standing_product plain described nofun
    have same : u.read file = t.read file := h.read stands ⟨.description, rfl⟩
    unfold Tree.readText
    rw [same]
  have described' : Describes u file old parsed := ⟨read.trans described.1, described.2⟩
  refine ⟨described', ?_⟩
  obtain ⟨same, later⟩ := makeDirectory_alike described home rooted climbs open_ h
  have directory : parsed.directory p.loadOptions = parsed.directory p.options.load := rfl
  simp only [Loading.load, Loading.readValid_eq_ok.2 ⟨old, described⟩,
    Loading.readValid_eq_ok.2 ⟨old, described'⟩, directory]
  rcases made : Loading.makeDirectory p.loadOptions t (parsed.directory p.options.load) with ⟨r, t₁⟩
  rcases made' : Loading.makeDirectory p.loadOptions u (parsed.directory p.options.load)
    with ⟨r', u₁⟩
  rw [made, made'] at same later
  obtain rfl := same
  cases r' with
  | error fault => exact ⟨rfl, later⟩
  | ok _ => exact ⟨rfl, later⟩

theorem process_alike (wrapper : p.renderer = .wrapper) (steady : p.synchronizer.fetcher.IsSteady)
    (described : Describes t file old parsed) (home : HasHome t) (rooted : s.tree.Rooted)
    (climbs : p.RootClimbs t) (open_ : p.Open t s.tree parsed)
    (free : s.owners.lookup parsed.name = none)
    (h : Follows (p.OwnPlaces t file parsed) t s.tree t s.tree) :
    (p.process s file).1 = (p.process ⟨t, 0, []⟩ file).1 ∧
      Follows (p.OwnPlaces t file parsed) t s.tree (p.process ⟨t, 0, []⟩ file).2.2.tree
        (p.process s file).2.2.tree := by
  obtain ⟨described', same, later⟩ :=
    load_alike (plain_of_wrapper wrapper) described home rooted climbs open_ h
  unfold process
  rcases load : Loading.load p.loadOptions t file with ⟨loaded, t₁⟩
  rcases load' : Loading.load p.loadOptions s.tree file with ⟨loaded', u₁⟩
  rw [load, load'] at same later
  obtain rfl := same
  cases loaded' with
  | error f => exact ⟨rfl, later⟩
  | ok tool =>
    obtain ⟨parsed', old', again, rfl, made⟩ := load_eq_ok.1 load
    obtain ⟨rfl, rfl⟩ := described.unique again
    have named : (p.placed file parsed).name = parsed.name := rfl
    simp only [named, free, List.lookup_nil]
    refine produce_alike wrapper steady (Loading.makeDirectory_extends made).sameKind
      (described.made made) (fun real => isDirectory_of_made real described made) later

end Toolwright.Pipeline
