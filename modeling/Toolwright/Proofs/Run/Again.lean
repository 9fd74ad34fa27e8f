import Toolwright.Proofs.Discovery
import Toolwright.Proofs.Run.Settled

/-!
Running a second time. A run settles its descriptions: what it made for one of them stays while it
goes on with the others, so working on that description again comes to the same end and writes what
is there already. Only the wrapper of a tool with read-only properties may be written anew, since
these properties go with the first replacement of the description.
-/

namespace Toolwright

open Files (Entry IsName Location Tree)
open Files.Tree (Above Blocked Extends HasHome Leads Level Within)

def Tool.AllSettable (t : Tool) : Prop := ∀ q ∈ Wrapper.allProperties t, q.settable = true

namespace Pipeline

variable {p : Pipeline} {s s' : RunState} {X : Location → Prop} {t t₁ t₂ t₃ t' T : Tree}
  {file site : Path} {parsed : Tool} {old text : String} {result : Except Failure FileReport}
  {x : Product} {at_ : Location}

theorem locate_product {P : Product → Prop} {content : ByteArray} (wrapper : p.renderer = .wrapper)
    (inSite : DescriptionIn site file) (name : IsName parsed.name)
    (h : Within (fun at_ => ∃ y, P y ∧ Leads t' (p.productPath file parsed y) at_) t t')
    (other : ¬ P x)
    (way : t.locate (p.productPath file parsed x) = .ok (.entry at_ (.file content))) :
    t'.locate (p.productPath file parsed x) = .ok (.entry at_ (.file content)) := by
  refine h.locate_file way fun ⟨y, among, leads⟩ => other ?_
  have here : Leads t' (p.productPath file parsed x) at_ := Leads.mono h.grows ⟨_, way⟩
  have same := (eq_of_meets wrapper inSite inSite name name (fun _ _ _ => rfl)
    (.inr ⟨at_, leads, here⟩)).2
  exact same ▸ among

theorem archive_within {references : List ReferenceOutcome}
    (archive : p.archiveReferences t (p.placed file parsed) = (references, t')) :
    Within (fun at_ => ∃ y, (∃ i, y = Product.archive i) ∧
      Leads t' (p.productPath file parsed y) at_)
      t t' :=
  (archiveReferences_within archive).mono fun _ ⟨i, _, leads⟩ => ⟨.archive i, ⟨i, rfl⟩, leads⟩

theorem saved_within {dryRun : Bool} {r : Except Failure Saving.Outcome}
    (save : Saving.save t (p.placed file parsed) dryRun = (r, t')) :
    Within (fun at_ => ∃ y, Product.isInside y = false ∧ Leads t' (p.productPath file parsed y) at_)
      t t' := by
  refine (save_within save).mono fun at_ ⟨old, _, leads⟩ => ?_
  obtain ⟨y, outside, _, path⟩ := p.due_destination file parsed old
  refine ⟨y, outside, ?_⟩
  rw [path]
  rwa [canonicalText_placed] at leads

theorem refused_inside {fault : Files.Fault} (wrapper : p.renderer = .wrapper)
    (inSite : DescriptionIn site file) (grows : Extends Entry.SameKind t T)
    (inside : x.isInside = true) (there : t.isDirectory (parsed.directory p.options.load) = true)
    (refused : t.fileTarget (p.productPath file parsed x) = .error fault) :
    T.fileTarget (p.productPath file parsed x) = .error fault := by
  obtain ⟨n, isName, _, rfl⟩ := inSite
  obtain ⟨l, way⟩ := Files.Tree.isDirectory_iff.1 there
  have named := Product.isName_name isName (plain_of_wrapper wrapper) x
  rw [productPath_inside isName inside] at refused ⊢
  exact Files.Tree.fileTarget_error_mono (Path.endsWith_join named)
    (Files.Tree.above_of_locate way) grows refused

theorem refused_sibling {fault : Files.Fault} (inSite : DescriptionIn site file)
    (grows : Extends Entry.SameKind t T) (read : t.readText file = .ok old)
    (refused : t.fileTarget (Saving.siblingPath file) = .error fault) :
    T.fileTarget (Saving.siblingPath file) = .error fault := by
  obtain ⟨n, isName, _, rfl⟩ := inSite
  obtain ⟨at_, way⟩ := Files.Tree.readText_eq_ok.1 read
  obtain ⟨l, above, _⟩ := Leads.above (Path.endsWith_join isName) ⟨_, way⟩
  have path : Saving.siblingPath (site.join ⟨n⟩) = site.join ⟨n ++ ".new"⟩ :=
    Path.extend_join isName.relative ".new" isName.ne_empty
  have plain : '/' ∉ "rs".toList := by decide
  have named : IsName (n ++ ".new") := Product.isName_name isName plain .sibling
  rw [path] at refused ⊢
  exact Files.Tree.fileTarget_error_mono (Path.endsWith_join named) above grows refused

/-- The tree comes later, and the products of the description are in it as they were. -/
structure Lasts (p : Pipeline) (t T : Tree) (file : Path) (parsed : Tool) : Prop where
  grows : Extends Entry.SameKind t T
  kept : ∀ x at_ content,
    t.locate (p.productPath file parsed x) = .ok (.entry at_ (.file content)) →
      T.locate (p.productPath file parsed x) = .ok (.entry at_ (.file content))

theorem Lasts.readText (h : p.Lasts t T file parsed) (read : t.readText file = .ok text) :
    T.readText file = .ok text := by
  obtain ⟨at_, way⟩ := Files.Tree.readText_eq_ok.1 read
  exact Files.Tree.readText_eq_ok.2 ⟨at_, h.kept .description at_ _ way⟩

theorem Lasts.ready (h : p.Lasts t T file parsed) (described : Describes t file old parsed)
    (there : t.isDirectory (parsed.directory p.options.load) = true) : p.Ready T file old parsed :=
  ⟨⟨h.readText described.1, described.2⟩, h.grows.isDirectory there⟩

section Stages

variable (real : p.options.dryRun = false) (wrapper : p.renderer = .wrapper)
  (steady : p.synchronizer.fetcher.IsSteady) (inSite : DescriptionIn site file)

include wrapper steady inSite

theorem archived_of_synchronize {i : Nat} {r : Reference}
    (there : t₁.isDirectory (parsed.directory p.options.load) = true)
    (archive : (p.synchronizer.synchronize (p.placed file parsed) t₁).2 = t₂)
    (grows : Extends Entry.SameKind t₁ T)
    (kept : ∀ at_ content,
      t₂.locate (p.productPath file parsed (.archive i)) = .ok (.entry at_ (.file content)) →
        T.locate (p.productPath file parsed (.archive i)) = .ok (.entry at_ (.file content)))
    (held : parsed.references[i]? = some r) : p.Archived T file parsed i r := by
  intro text hasText
  rw [Synchronizer.textFor_steady steady T t₁] at hasText
  cases target : t₁.fileTarget (p.productPath file parsed (.archive i)) with
  | error fault => exact .inl ⟨fault, refused_inside wrapper inSite grows rfl there target⟩
  | ok at_ =>
    have after := (Synchronizer.synchronize_after steady (p.placed file parsed) t₁).2
    rw [archive] at after
    have bound : i < (p.placed file parsed).references.length :=
      (List.getElem?_eq_some_iff.1 held).1
    have written := after.written i text at_ bound ⟨r, held, hasText, target⟩
    have target' : t₂.fileTarget (p.productPath file parsed (.archive i)) = .ok at_ :=
      (after.targets i).trans target
    exact .inr ⟨at_, kept _ _ (Files.Tree.locate_of_fileTarget target' written)⟩

include real

theorem made_of_stages {generated : GeneratedFile} {references : List ReferenceOutcome}
    {r : Except Failure Saving.Outcome} (name : IsName parsed.name)
    (there : t.isDirectory (parsed.directory p.options.load) = true)
    (write : p.writeGenerated t (p.placed file parsed) text = (.ok generated, t₁))
    (archive : p.archiveReferences t₁ (p.placed file parsed) = (references, t₂))
    (save : Saving.save t₂ (p.placed file parsed) p.options.dryRun = (r, t₃))
    (lasts : p.Lasts t₃ T file parsed) :
    (∃ at_, T.locate (p.productPath file parsed .wrapper) = .ok (.entry at_ (.file text.toUTF8))) ∧
      (p.options.references = true → ∀ i r, parsed.references[i]? = some r →
        p.Archived T file parsed i r) := by
  have first := (writeGenerated_within write).grows
  have second := archive_within archive
  have third := saved_within save
  constructor
  · rw [writeGenerated_real p real] at write
    cases written : t.writeText (p.renderer.generatedPath (p.placed file parsed)) text with
    | error fault =>
      rw [written] at write
      cases write
    | ok t' =>
      rw [written] at write
      obtain rfl : t' = t₁ := (Prod.mk.inj write).2
      obtain ⟨at_, way⟩ := Files.Tree.locate_of_writeText written
      have kept := locate_product (x := .wrapper) wrapper inSite name second (by simp) way
      exact ⟨at_, lasts.kept _ _ _
        (locate_product wrapper inSite name third (by simp [Product.isInside]) kept)⟩
  · intro wanted i r held
    unfold archiveReferences at archive
    simp only [wanted, real, Bool.not_true, Bool.false_eq_true, if_false] at archive
    refine archived_of_synchronize wrapper steady inSite (first.isDirectory there)
      (congrArg Prod.snd archive)
        ((second.grows.sameKind_trans third.grows).sameKind_trans lasts.grows)
      (fun at_ content way => lasts.kept _ _ _ ?_) held
    exact locate_product wrapper inSite name third (by simp [Product.isInside]) way

end Stages

theorem allProperties_placed : Wrapper.allProperties (p.placed file parsed) =
    Wrapper.allProperties parsed := by
  have tasks : ∀ name, ((parsed.tasks.mapIdx (Tool.wiredTask name)).map (·.settings.properties)) =
      parsed.tasks.map (·.settings.properties) :=
    fun name => map_mapIdx (f := Tool.wiredTask name) (fun _ _ => rfl) parsed.tasks
  simp only [Wrapper.allProperties, placed, Tool.placed, Tool.wired, List.flatMap_def, List.map_map,
    tasks]
  rfl

theorem Describes.normal (described : Describes t file old parsed) (whole : parsed.Whole)
    (written : T.readText file = .ok parsed.canonicalText) :
    Describes T file parsed.canonicalText parsed.normal :=
  ⟨written, Tool.parse_readable (Tool.readable whole (Tool.depth_le_of_parse described.2.1)),
    Tool.defect?_normal described.2.2⟩

theorem productPath_normal (p : Pipeline) (file : Path) (parsed : Tool) (x : Product) :
    p.productPath file parsed.normal x = p.productPath file parsed x := by
  cases x <;> rfl

theorem source_normal (settable : parsed.AllSettable) :
    (Wrapper.Source.ofTool (p.placed file parsed.normal)).text =
      (Wrapper.Source.ofTool (p.placed file parsed)).text := by
  have all : ∀ q ∈ Wrapper.allProperties (p.placed file parsed), q.settable = true := by
    rw [allProperties_placed]
    exact settable
  have left : p.placed file parsed.normal = (p.placed file parsed).settableOnly.tidied :=
    Tool.normal_placed_wired_eq _ _ _
  have tidied := Wrapper.render_tidied (p.placed file parsed).settableOnly 0 0
  have same := (Wrapper.render_settableOnly (p.placed file parsed) 0 0).2 all
  rw [left]
  exact tidied.trans same

/-- Wherever the wrapper of a tool with read-only properties is may be written anew. -/
def Stale (p : Pipeline) (X : Location → Prop) (T : Tree) (file : Path) (parsed : Tool) : Prop :=
  ¬ parsed.AllSettable → ∀ at_, Leads T (p.productPath file parsed .wrapper) at_ → X at_

theorem Made.normal (stale : p.Stale X T file parsed) (h : p.Made X T file parsed) :
    p.Made X T file parsed.normal where
  wrapper := by
    obtain ⟨at_, content, way, either⟩ := h.wrapper
    refine ⟨at_, content, (productPath_normal p file parsed .wrapper).symm ▸ way, ?_⟩
    by_cases settable : parsed.AllSettable
    · rwa [source_normal settable]
    · exact .inr (stale settable at_ ⟨_, way⟩)
  archives wanted i r held := by
    intro text hasText
    rw [productPath_normal]
    exact h.archives wanted i r held text hasText

section Settles

variable (real : p.options.dryRun = false) (wrapper : p.renderer = .wrapper)
  (steady : p.synchronizer.fetcher.IsSteady) (inSite : DescriptionIn site file)

include wrapper steady inSite real

theorem settled_of_stages {owners : List (String × Path)} {generated : GeneratedFile}
    {references : List ReferenceOutcome} {r : Except Failure Saving.Outcome}
    (described : Describes t file old parsed)
    (there : t.isDirectory (parsed.directory p.options.load) = true)
    (free : owners.lookup parsed.name = none)
    (text_eq : text = (Wrapper.Source.ofTool (p.placed file parsed)).text)
    (write : p.writeGenerated t (p.placed file parsed) text = (.ok generated, t₁))
    (archive : p.archiveReferences t₁ (p.placed file parsed) = (references, t₂))
    (save : Saving.save t₂ (p.placed file parsed) p.options.dryRun = (r, t₃))
    (lasts : p.Lasts t₃ T file parsed) (whole : parsed.Whole) (stale : p.Stale X T file parsed) :
    p.Settled X T owners file r.toOption.isSome ((parsed.name, file) :: owners) := by
  have plain := plain_of_wrapper wrapper
  have name := described.isName.1
  obtain ⟨⟨at_, located⟩, archived⟩ :=
    made_of_stages real wrapper steady inSite name there write archive save lasts
  have made : p.Made X T file parsed := ⟨⟨at_, _, located, .inl (by rw [text_eq])⟩, archived⟩
  have read : t₂.readText (p.placed file parsed).definitionFile = .ok old :=
    (described.before_save plain write archive).2
  have up := ((writeGenerated_within write).grows.sameKind_trans (archive_within archive).grows)
  have there₃ := (up.sameKind_trans (saved_within save).grows).isDirectory there
  rw [save_eq read, canonicalText_placed, real] at save
  -- only a text that replaces the description makes it another one, and that one is in normal form
  by_cases same : Saving.target old parsed.canonicalText = .description ∧ old = parsed.canonicalText
  · rw [if_pos (.inr same)] at save
    obtain ⟨rfl, rfl⟩ := Prod.mk.inj save
    exact .saved (lasts.ready ⟨read, described.2⟩ there₃) free made (.inl same.2)
  · rw [if_neg (by simpa using same)] at save
    cases target : Saving.target old parsed.canonicalText with
    | description =>
      obtain ⟨t', written, holds⟩ := Files.Tree.writeText_of_readText read parsed.canonicalText
      have written' : t₂.writeText (Saving.destination (p.placed file parsed).definitionFile
          .description) parsed.canonicalText = .ok t' := written
      rw [target, written'] at save
      obtain ⟨rfl, rfl⟩ := Prod.mk.inj save
      have described' := described.normal whole (lasts.readText holds)
      have ready : p.Ready T file parsed.canonicalText parsed.normal :=
        ⟨described', lasts.grows.isDirectory there₃⟩
      have settled : p.Settled X T owners file true ((parsed.normal.name, file) :: owners) :=
        .saved ready free (made.normal stale) (.inl (Tool.canonicalText_normal parsed).symm)
      exact settled
    | sibling =>
      cases written : t₂.writeText (Saving.siblingPath file) parsed.canonicalText with
      | error fault =>
        have written' : t₂.writeText (Saving.destination (p.placed file parsed).definitionFile
            .sibling) parsed.canonicalText = .error fault := written
        rw [target, written'] at save
        obtain ⟨rfl, rfl⟩ := Prod.mk.inj save
        exact .unsaved (lasts.ready ⟨read, described.2⟩ there₃) free made target
          (refused_sibling inSite lasts.grows read (Files.Tree.writeText_eq_error.1 written))
      | ok t' =>
        have written' : t₂.writeText (Saving.destination (p.placed file parsed).definitionFile
            .sibling) parsed.canonicalText = .ok t' := written
        rw [target, written'] at save
        obtain ⟨rfl, rfl⟩ := Prod.mk.inj save
        have kept : t'.readText file = .ok old :=
          Files.Tree.readText_of_writeText_extend read (by decide) (by rfl) written
        obtain ⟨l, way⟩ := Files.Tree.locate_of_writeText written
        exact .saved (lasts.ready ⟨kept, described.2⟩ there₃) free made
          (.inr ⟨target, l, lasts.kept .sibling _ _ way⟩)

theorem Produces.settled {owners : List (String × Path)}
    (described : Describes s.tree file old parsed)
    (there : s.tree.isDirectory (parsed.directory p.options.load) = true)
    (free : owners.lookup parsed.name = none)
    (h : p.Produces s (p.placed file parsed) result s') (lasts : p.Lasts s'.tree T file parsed)
    (whole : parsed.Whole) (stale : p.Stale X T file parsed) :
    p.Settled X T owners file result.toOption.isSome ((parsed.name, file) :: owners) := by
  obtain ⟨calls, checked⟩ :=
    checked_wrapper wrapper s.calls (p.placed file parsed) p.options.verifyDeterminism
  cases h with
  | unstable render =>
    rw [checked] at render
    exact nomatch (Prod.mk.inj render).1
  | unwritten render write =>
    rw [writeGenerated_real p real] at write
    split at write
    · rename_i fault refused
      obtain ⟨_, rfl⟩ := Prod.mk.inj write
      exact .unwritten (lasts.ready described there) free
        (refused_inside wrapper inSite lasts.grows rfl there
          (Files.Tree.writeText_eq_error.1 refused))
    · exact nomatch (Prod.mk.inj write).1
  | unsaved render write archive save =>
    rw [checked] at render
    have text_eq := Except.ok.inj (Prod.mk.inj render).1
    exact settled_of_stages real wrapper steady inSite described there free text_eq.symm
      write archive
      save lasts whole stale
  | finished render write archive save =>
    rw [checked] at render
    have text_eq := Except.ok.inj (Prod.mk.inj render).1
    exact settled_of_stages real wrapper steady inSite described there free text_eq.symm
      write archive
      save lasts whole stale

theorem Works.settled (home : HasHome s.tree) (h : p.Works s file result s')
    (grows : Extends Entry.SameKind s'.tree T) (own : T.locate file = s'.tree.locate file)
    (kept : ∀ parsed : Tool, IsName parsed.name → s'.owners = (parsed.name, file) :: s.owners →
      p.Lasts s'.tree T file parsed)
    (whole : ∀ old parsed, Describes s.tree file old parsed → parsed.Whole)
    (stale : ∀ old parsed, Describes s.tree file old parsed →
      s'.owners = (parsed.name, file) :: s.owners → p.Stale X T file parsed) :
    p.Settled X T s.owners file result.toOption.isSome s'.owners := by
  have valid : ∀ {t : Tree} {old : String} {parsed : Tool}, Describes t file old parsed →
      T.locate file = t.locate file → Describes T file old parsed :=
    fun described same => described.congr (Files.Tree.readText_congr same)
  cases h with
  | @unloaded f _ load =>
    rcases load_error load with ⟨invalid, rfl⟩ | ⟨parsed, old, fault, described, made⟩
    · have fails : Loading.readValid T file = .error f := by
        rw [← invalid]
        unfold Loading.readValid
        rw [Files.Tree.readText_congr own]
      exact .invalid fails
    · have fails := made
      rw [Loading.makeDirectory, if_pos (createDirectories_of_real real)] at fails
      have parts := Path.partsOf_join (p := p.options.load.outputRoot) described.isName.1
      have blocked := Files.Tree.blocked_of_createDirectories home parts fails
      exact .blocked (valid (described.made made) own) (blocked.mono grows)
  | taken load owned =>
    obtain ⟨parsed, old, described, rfl, made⟩ := load_eq_ok.1 load
    exact .taken ⟨valid (described.made made) own,
      grows.isDirectory (isDirectory_of_made real described made)⟩
      owned
  | produced load free produces =>
    obtain ⟨parsed, old, described, rfl, made⟩ := load_eq_ok.1 load
    have owners : s'.owners = (parsed.name, file) :: s.owners := by
      cases produces <;> rfl
    rw [owners]
    exact produces.settled real wrapper steady inSite (described.made made)
      (isDirectory_of_made real described made) free (kept parsed described.isName.1 owners)
      (whole old parsed described) (stale old parsed described owners)

end Settles

def fate (o : FileOutcome) : Path × Bool := (o.file, o.isOk)

variable {files : List Path} {outcomes : List FileOutcome} {stopped : Bool}

/-- Going through the same descriptions again comes to the same ends and keeps the trees level. -/
theorem Courses.again (real : p.options.dryRun = false) (wrapper : p.renderer = .wrapper)
    (steady : p.synchronizer.fetcher.IsSteady) (h : p.Courses s files outcomes stopped s')
    (wellFormed : s'.tree.WellFormed) (home : HasHome s.tree) (nodup : files.Nodup)
    (inSite : ∀ file ∈ files, DescriptionIn site file)
    (older : ∀ file ∈ files, s.tree.isFile file = true)
    (whole : ∀ file ∈ files, ∀ old parsed, Describes s.tree file old parsed → parsed.Whole)
    (stale : ∀ file ∈ files, ∀ old parsed, Describes s.tree file old parsed →
      s'.owners.lookup parsed.name = some file → p.Stale X s'.tree file parsed)
    (apart : ∀ file ∈ files, ∀ at_, Leads s'.tree file at_ → ¬ X at_) {u : RunState}
    (level : Level X s'.tree u.tree) (owners : u.owners = s.owners) :
    ∃ outcomes' u', p.Courses u files outcomes' stopped u' ∧
      outcomes'.map fate = outcomes.map fate ∧
      Level X s'.tree u'.tree := by
  have plain := plain_of_wrapper wrapper
  -- every description is settled in the last tree, since the later ones leave what was made for it
  induction h generalizing u with
  | done => exact ⟨[], u, .done, rfl, level⟩
  | @stopped s s' file rest result works ends =>
    have settled := works.settled real wrapper steady (inSite file List.mem_cons_self) home
      (.sameKind_refl _) rfl
      (fun parsed _ _ => ⟨.sameKind_refl _, fun _ _ _ way => way⟩)
      (whole file List.mem_cons_self)
      (fun old parsed described owned => stale file List.mem_cons_self old parsed described (by
        rw [owned, List.lookup_cons_self]))
    obtain ⟨result', u', works', same, level', _⟩ := settled.works real wrapper steady wellFormed
      (apart file List.mem_cons_self) level owners
    refine ⟨_, u', .stopped works' ?_, ?_, level'⟩
    · rwa [GoesOn, same]
    · simp [fate, FileOutcome.isOk, same]
  | @next s s₁ s' file rest result outcomes stopped works goes later ih =>
    obtain ⟨fresh, nodup'⟩ := List.nodup_cons.1 nodup
    obtain ⟨own, others⟩ := List.forall_mem_cons.1 inSite
    have grows := (works.within plain).grows
    -- the descriptions that are left are as they were before this one
    have kept := works.locate_eq wrapper own others fresh
      fun other held => older other (List.mem_cons_of_mem _ held)
    have before : ∀ other ∈ rest, ∀ old parsed, Describes s₁.tree other old parsed →
        Describes s.tree other old parsed := fun other held old parsed described =>
      described.congr (Files.Tree.readText_congr (kept other held).symm)
    have settled := works.settled real wrapper steady own home (later.within plain).grows
      (later.description_eq wrapper own others fresh (grows.isFile (older file List.mem_cons_self)))
      (fun parsed name owned => ⟨(later.within plain).grows, fun x at_ content way =>
        later.locate_eq wrapper own others fresh name (fun _ => by simp [owned]) way⟩)
      (whole file List.mem_cons_self)
      (fun old parsed described owned => stale file List.mem_cons_self old parsed described
        (later.owner (by rw [owned, List.lookup_cons_self])))
    obtain ⟨result', u₁, works', same, level', owners'⟩ :=
      settled.works real wrapper steady wellFormed
      (apart file List.mem_cons_self) level owners
    obtain ⟨outcomes', u', later', fates, level''⟩ := ih wellFormed (home.mono grows) nodup' others
      (fun other held => by
        rw [Files.Tree.isFile_congr (kept other held)]
        exact older other (List.mem_cons_of_mem _ held))
      (fun other held old parsed described =>
        whole other (List.mem_cons_of_mem _ held) old parsed
        (before other held old parsed described))
      (fun other held old parsed described =>
        stale other (List.mem_cons_of_mem _ held) old parsed
        (before other held old parsed described))
      (fun other held => apart other (List.mem_cons_of_mem _ held)) level' owners'
    refine ⟨_, u', .next works' ?_ later', ?_, level''⟩
    · rwa [GoesOn, same]
    · simp [fate, FileOutcome.isOk, same, fates]

end Pipeline

end Toolwright
