import Toolwright.Proofs.Run.Alone
import Toolwright.Proofs.Saving

/-!
What working on one description leaves behind. The places of its products are told by its own place
and by the name of its tool; only these change, and directories that are made for the tool. The
description itself keeps its text or gets the canonical text of its tool.
-/

namespace Toolwright.Pipeline

open Files (Entry IsName Location Tree)
open Files.Tree (Extends Follows HasHome)

variable {p : Pipeline} {s s' : RunState} {t u : Tree} {file other : Path} {parsed parsed' : Tool}
  {old old' : String} {at_ : Location} {x : Product}

def IsDescription (t : Tree) (file : Path) : Prop := ∃ old parsed, Describes t file old parsed

theorem aim_directory (t : Tree) (name : IsName parsed.name) :
    t.aim (parsed.directory p.options.load) = t.aim p.options.load.outputRoot ++ [parsed.name] :=
  Files.Tree.aim_join name t _

theorem aim_sibling {site : Path} {n : String} (isName : IsName n) (t : Tree) :
    t.aim (Saving.siblingPath (site.join ⟨n⟩)) = t.aim site ++ [n ++ ".new"] := by
  have inner : IsName (n ++ ".new") :=
    Product.isName_name isName (show '/' ∉ "".toList by decide) .sibling
  have path : Saving.siblingPath (site.join ⟨n⟩) = site.join ⟨n ++ ".new"⟩ :=
    Path.extend_join isName.relative _ isName.ne_empty
  rw [path, Files.Tree.aim_join inner]

theorem aim_product (plain : '/' ∉ p.renderer.extension.toList)
    (described : Describes t file old parsed) :
    ∃ (site : Path) (n : String), file = site.join ⟨n⟩ ∧ IsName n ∧ ∀ x,
      t.aim (p.productPath file parsed x) =
        (if x.isInside then t.aim (parsed.directory p.options.load) else t.aim site) ++
          [x.name p.renderer.extension n] := by
  obtain ⟨site, n, rfl, isName⟩ := Files.Tree.join_of_readText described.1
  refine ⟨site, n, rfl, isName, fun x => ?_⟩
  rw [productPath, placed, Product.path_eq p.renderer isName x,
    Files.Tree.aim_join (Product.isName_name isName plain x)]
  cases x.isInside <;> rfl

theorem aim_inside (plain : '/' ∉ p.renderer.extension.toList)
    (described : Describes t file old parsed)
    (inside : x.isInside = true) : ∃ name, t.aim (p.productPath file parsed x) =
      t.aim (parsed.directory p.options.load) ++ [name] := by
  obtain ⟨_, _, _, _, aim⟩ := aim_product plain described
  exact ⟨_, by rw [aim, if_pos inside]⟩

theorem Describes.get?_aim (described : Describes t file old parsed) :
    t.get? (t.aim file) = some (.file old.toUTF8) := Files.Tree.get?_aim described.1

theorem Describes.eq_of_aim (described : Describes t file old parsed)
    (described' : Describes t other old' parsed') (same : t.aim file = t.aim other) :
    old = old' ∧ parsed = parsed' := by
  have read : t.readText file = .ok old' :=
    (Extends.sameKind_refl t).readText_of_get? described.1 (same ▸ described'.get?_aim)
  exact described.unique ⟨read, described'.2⟩

def aloneResult (p : Pipeline) (t : Tree) (file : Path) : Except Failure FileReport :=
  (p.process ⟨t, 0, []⟩ file).1

def aloneTree (p : Pipeline) (t : Tree) (file : Path) : Tree := (p.process ⟨t, 0, []⟩ file).2.2.tree

theorem works_alone (p : Pipeline) (t : Tree) (file : Path) :
    p.Works ⟨t, 0, []⟩ file (p.aloneResult t file) (p.process ⟨t, 0, []⟩ file).2.2 :=
  works_iff.2 ⟨_, rfl⟩

theorem exists_works_alone (p : Pipeline) (t : Tree) (file : Path) :
    ∃ result s', p.Works ⟨t, 0, []⟩ file result s' ∧ p.aloneTree t file = s'.tree :=
  ⟨_, _, p.works_alone t file, rfl⟩

theorem aloneTree_grows (plain : '/' ∉ p.renderer.extension.toList) (t : Tree) (file : Path) :
    Extends Entry.SameKind t (p.aloneTree t file) :=
  ((p.works_alone t file).within plain).grows

theorem Works.eq_process {result : Except Failure FileReport} (h : p.Works s file result s') :
    result = (p.process s file).1 ∧ s' = (p.process s file).2.2 := by
  obtain ⟨events, process⟩ := works_iff.1 h
  rw [process]
  exact ⟨rfl, rfl⟩

theorem process_of_load_error {f : Failure}
    (load : Loading.load p.loadOptions s.tree file = (.error f, u)) :
    p.process s file = (.error f, [], { s with tree := u }) := by
  simp only [process, load]

theorem load_of_unread (unread : ¬ IsDescription t file) : ∃ f, ∀ u : Tree,
    u.readText file = t.readText file → Loading.load p.loadOptions u file = (.error f, u) := by
  cases valid : Loading.readValid t file with
  | ok parsed =>
    obtain ⟨old, described⟩ := Loading.readValid_eq_ok.1 valid
    exact absurd ⟨old, parsed, described⟩ unread
  | error f =>
    refine ⟨f, fun u same => ?_⟩
    have again : Loading.readValid u file = .error f := by
      rw [← valid, Loading.readValid, Loading.readValid, same]
    simp only [Loading.load, again]

theorem aloneTree_of_unread (unread : ¬ IsDescription t file) : p.aloneTree t file = t := by
  obtain ⟨f, fails⟩ := load_of_unread (p := p) unread
  rw [aloneTree, process_of_load_error (s := ⟨t, 0, []⟩) (fails t rfl)]

theorem loadedName?_eq_some {name : String} (named : p.loadedName? t file = some name) :
    ∃ old parsed t₁, Describes t file old parsed ∧ parsed.name = name ∧
      Loading.load p.loadOptions t file = (.ok (p.placed file parsed), t₁) := by
  rcases load : Loading.load p.loadOptions t file with ⟨f | tool, t₁⟩
  · rw [loadedName?_of_error load] at named
    cases named
  · rw [loadedName?_of_ok load] at named
    cases named
    obtain ⟨parsed, old, described, rfl, _⟩ := load_eq_ok.1 load
    exact ⟨old, parsed, t₁, described, rfl, rfl⟩

theorem aloneTree_of_load {t₁ : Tree} (plain : '/' ∉ p.renderer.extension.toList)
    (load : Loading.load p.loadOptions t file = (.ok (p.placed file parsed), t₁)) :
    Extends Entry.SameKind t₁ (p.aloneTree t file) := by
  obtain ⟨_, s, works, tree⟩ := p.exists_works_alone t file
  rw [tree]
  cases works with
  | unloaded fails => cases load.symm.trans fails
  | taken _ owned => cases owned
  | produced load' _ produces =>
    cases load.symm.trans load'
    obtain ⟨parsed', old, described, same, made⟩ := load_eq_ok.1 load
    rw [same] at produces
    exact (produces.within plain (described.made made)).grows

theorem aloneTree_rooted (wrapper : p.renderer = .wrapper)
    (steady : p.synchronizer.fetcher.IsSteady)
    (home : HasHome t) (rooted : t.Rooted) (climbs : p.RootClimbs t) (file : Path) :
    (p.aloneTree t file).Rooted := by
  by_cases there : IsDescription t file
  · obtain ⟨old, parsed, described⟩ := there
    have start : Follows (p.OwnPlaces t file parsed) t t t t :=
      .start (.sameKind_refl t) (fun _ _ => rfl) rooted
    refine (process_alike (s := ⟨t, 0, []⟩) wrapper steady described home rooted climbs
      (fun _ _ free content there => ?_) rfl start).2.rooted
    cases free.symm.trans there
  · rwa [aloneTree_of_unread there]

theorem runFiles_alone (onward : p.options.failFast = false) (t : Tree) (file : Path) :
    (p.runFiles t [file]).1.outcomes = [⟨file, p.aloneResult t file⟩] ∧
      (p.runFiles t [file]).2.2 = p.aloneTree t file := by
  have goes : p.GoesOn (p.aloneResult t file) := .inr onward
  obtain ⟨events, all⟩ := courses_iff.1 (.next (p.works_alone t file) goes .done)
  rw [runFiles, all]
  exact ⟨rfl, rfl⟩

theorem readText_of_save {r : Except Failure Saving.Outcome} {tool : Tool} {dryRun : Bool}
    (read : t.readText tool.definitionFile = .ok old) (save : Saving.save t tool dryRun = (r, u)) :
    u.readText tool.definitionFile = .ok old ∨
      u.readText tool.definitionFile = .ok tool.canonicalText := by
  cases r with
  | ok outcome =>
    rw [(Saving.readText_of_save save).2]
    split
    · exact .inr rfl
    · exact .inl read
  | error f =>
    rw [save_eq read] at save
    split at save
    · cases save
    · split at save <;> cases save
      exact .inl read

theorem Works.readText {result : Except Failure FileReport}
    (plain : '/' ∉ p.renderer.extension.toList) (h : p.Works s file result s')
    (described : Describes s.tree file old parsed) :
    s'.tree.readText file = .ok old ∨ s'.tree.readText file = .ok parsed.canonicalText := by
  cases h with
  | unloaded load =>
    rcases load_error load with ⟨_, rfl⟩ | ⟨_, _, _, _, made⟩
    · exact .inl described.1
    · exact .inl ((Loading.makeDirectory_extends made).readText described.1)
  | taken load _ =>
    obtain ⟨_, _, _, _, made⟩ := load_eq_ok.1 load
    exact .inl ((Loading.makeDirectory_extends made).readText described.1)
  | @produced _ t₀ _ _ load _ produces =>
    obtain ⟨_, _, again, rfl, made⟩ := load_eq_ok.1 load
    obtain ⟨rfl, rfl⟩ := described.unique again
    have loaded := described.made made
    have saved : ∀ {text generated t₁ references t₂ r t₃},
        p.writeGenerated t₀ (p.placed file parsed) text = (.ok generated, t₁) →
        p.archiveReferences t₁ (p.placed file parsed) = (references, t₂) →
        Saving.save t₂ (p.placed file parsed) p.options.dryRun = (r, t₃) →
        t₃.readText file = .ok old ∨ t₃.readText file = .ok parsed.canonicalText := by
      intro text generated t₁ references t₂ r t₃ write archive save
      have read : t₂.readText (p.placed file parsed).definitionFile = .ok old :=
        (loaded.before_save plain write archive).2
      have either := readText_of_save read save
      have canonical : (p.placed file parsed).canonicalText = parsed.canonicalText :=
        Tool.canonicalText_placed_wired _ _ _
      rw [canonical] at either
      exact either
    cases produces with
    | unstable render => exact .inl loaded.1
    | unwritten render write =>
      refine .inl (loaded.kept plain loaded.1
        ((writeGenerated_within write).mono fun _ leads => ?_))
      exact ⟨.wrapper, rfl, leads⟩
    | unsaved render write archive save => exact saved write archive save
    | finished render write archive save => exact saved write archive save

theorem makeDirectory_changed {made : Except Files.Fault Unit}
    (described : Describes t file old parsed)
    (home : HasHome t) (rooted : t.Rooted) (climbs : p.RootClimbs t)
    (h : Loading.makeDirectory p.loadOptions t (parsed.directory p.options.load) = (made, u))
    (changed : u.get? at_ ≠ t.get? at_) : t.get? at_ = none ∧ u.get? at_ = some .directory ∧
      at_ <+: t.aim (parsed.directory p.options.load) := by
  unfold Loading.makeDirectory at h
  split at h
  · have name := described.isName.1
    obtain ⟨nonempty, trimmed⟩ := Tool.directory_of_nameDefect?_eq_none
      (Tool.defect?_eq_none.1 described.2.2).1 p.options.load
    by_cases admitted : Files.Tree.Admitted (parsed.directory p.options.load)
    · have down := climbs_directory climbs name
      rw [Files.Tree.createDirectories_eq_lay home rooted admitted (Path.partsOf_join name) down]
        at h
      obtain rfl : _ = u := congrArg Prod.snd h
      rw [Files.Tree.aim_eq_moves]
      exact Files.Tree.lay_changed down changed
    · obtain ⟨fault, refused⟩ :=
        Files.Tree.createDirectories_of_not_admitted nonempty trimmed admitted
      rw [refused] at h
      cases h
      exact absurd rfl changed
  · cases h
    exact absurd rfl changed

/-- How working on a description alone changes a place: a directory was made there for the tool, or
it is the place of a product. -/
inductive Marks (p : Pipeline) (t : Tree) (file : Path) (parsed : Tool) (at_ : Location) : Prop
  | directory (free : t.get? at_ = none) (made : (p.aloneTree t file).get? at_ = some .directory)
      (way : at_ <+: t.aim (parsed.directory p.options.load)) : Marks p t file parsed at_
  | product (loaded : p.loadedName? t file = some parsed.name)
    (own : p.OwnPlaces t file parsed at_) :
      Marks p t file parsed at_

theorem marks_of_changed (plain : '/' ∉ p.renderer.extension.toList) (home : HasHome t)
    (rooted : t.Rooted) (climbs : p.RootClimbs t)
    (changed : (p.aloneTree t file).get? at_ ≠ t.get? at_) :
    ∃ old parsed, Describes t file old parsed ∧ p.Marks t file parsed at_ := by
  obtain ⟨_, s, works, tree⟩ := p.exists_works_alone t file
  rw [tree] at changed
  cases works with
  | unloaded load =>
    rcases load_error load with ⟨_, same⟩ | ⟨parsed, old, _, described, made⟩
    · exact absurd (by rw [same]) changed
    · obtain ⟨free, there, way⟩ := makeDirectory_changed described home rooted climbs made changed
      exact ⟨old, parsed, described, .directory free (tree ▸ there) way⟩
  | taken _ owned => cases owned
  | @produced _ t₁ _ _ load _ produces =>
    have named := loadedName?_of_ok load
    obtain ⟨parsed, old, described, rfl, made⟩ := load_eq_ok.1 load
    have within := produces.within plain (described.made made)
    refine ⟨old, parsed, described, ?_⟩
    by_cases early : t₁.get? at_ = t.get? at_
    · obtain ⟨x, _, leads⟩ := within.changed at_ (early ▸ changed)
      have same : s.tree.home = t.home :=
        within.grows.home.trans (Loading.makeDirectory_extends made).home
      exact .product named ⟨x, leads.aim_eq.trans (Files.Tree.aim_congr same _)⟩
    · obtain ⟨free, there, way⟩ := makeDirectory_changed described home rooted climbs made early
      obtain ⟨e, there', kind⟩ := within.grows.entry _ _ there
      exact .directory free (by rw [tree, there', kind.directory]) way

end Toolwright.Pipeline
