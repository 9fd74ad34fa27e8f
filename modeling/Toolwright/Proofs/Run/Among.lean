import Toolwright.Proofs.Run.Separate

/-!
A description among others that keep out of its way. Before every turn the files are those at first
with what is done for the earlier descriptions alone laid over them, but for descriptions that are
loaded under a name that is in use. So a turn comes to what the description comes to alone, and the
turns of others leave it at that.
-/

namespace Toolwright.Pipeline

open Files (Entry IsName Location Tree)
open Files.Tree (Admitted Blocked Extends Follows HasHome Leads Overlays Standing)

variable {p : Pipeline} {s s' : RunState} {t u a v : Tree} {file other : Path}
  {parsed parsed' : Tool} {old old' name : String} {at_ : Location} {files : List Path}
  {outcomes : List FileOutcome} {stopped : Bool} {j k : Nat} {o : FileOutcome}
  {result : Except Failure FileReport}

/-- What is asked of a pipeline, of the files at first and of the descriptions of a list. -/
structure Setting (p : Pipeline) (t : Tree) (files : List Path) : Prop where
  wrapper : p.renderer = .wrapper
  steady : p.synchronizer.fetcher.IsSteady
  home : HasHome t
  rooted : t.Rooted
  separate : p.Separate t files

theorem Setting.plain (h : p.Setting t files) : '/' ∉ p.renderer.extension.toList :=
  plain_of_wrapper h.wrapper

theorem Setting.rooted_alone (h : p.Setting t files) (file : Path) : (p.aloneTree t file).Rooted :=
  aloneTree_rooted h.wrapper h.steady h.home h.rooted h.separate.root file

/-- The name under which the description at an index is loaded alone. -/
def loadsAs (p : Pipeline) (t : Tree) (files : List Path) (k : Nat) : Option String :=
  files[k]?.bind (p.loadedName? t)

/-- An earlier description of the list is loaded under the same name. -/
def IsLate (p : Pipeline) (t : Tree) (files : List Path) (k : Nat) : Prop :=
  ∃ name, p.loadsAs t files k = some name ∧ ∃ j < k, p.loadsAs t files j = some name

/-- What is done alone for one of the first descriptions that are not late. -/
def Laid (p : Pipeline) (t : Tree) (files : List Path) (k : Nat) (a : Tree) : Prop :=
  ∃ j < k, ¬ p.IsLate t files j ∧ ∃ file, files[j]? = some file ∧ a = p.aloneTree t file

theorem loadsAs_eq (held : files[k]? = some file) : p.loadsAs t files k = p.loadedName? t file := by
  rw [loadsAs, held]
  rfl

theorem exists_first (named : p.loadsAs t files j = some name) :
    ∃ i ≤ j, p.loadsAs t files i = some name ∧ ¬ p.IsLate t files i := by
  induction j using Nat.strongRecOn with
  | ind j ih =>
    by_cases late : p.IsLate t files j
    · obtain ⟨other, again, i, before, first⟩ := late
      cases named.symm.trans again
      obtain ⟨first, below, rest⟩ := ih i before first
      exact ⟨first, by omega, rest⟩
    · exact ⟨j, Nat.le_refl j, named, late⟩

structure Sound (p : Pipeline) (t : Tree) (files : List Path) (k : Nat) (s : RunState) : Prop where
  names : ∀ name, s.owners.lookup name = none ↔ ∀ j < k, p.loadsAs t files j ≠ some name
  overlay : Overlays (p.Laid t files k) t s.tree

theorem Sound.start (p : Pipeline) (t : Tree) (files : List Path) :
    p.Sound t files 0 ⟨t, 0, []⟩ where
  names name := ⟨fun _ j below => by omega, fun _ => rfl⟩
  overlay := (Overlays.start t).congr fun a => ⟨fun ⟨j, below, _⟩ => by omega, False.elim⟩

theorem Laid.mem (h : p.Laid t files k a) : ∃ other ∈ files, a = p.aloneTree t other := by
  obtain ⟨_, _, _, other, held, rfl⟩ := h
  exact ⟨other, List.mem_of_getElem? held, rfl⟩

theorem laid_succ (held : files[k]? = some file) (early : ¬ p.IsLate t files k) :
    p.Laid t files (k + 1) a ↔ p.Laid t files k a ∨ a = p.aloneTree t file := by
  constructor
  · rintro ⟨j, below, early', other, held', rfl⟩
    rcases Nat.lt_succ_iff_lt_or_eq.1 below with before | rfl
    · exact .inl ⟨j, before, early', other, held', rfl⟩
    · cases held.symm.trans held'
      exact .inr rfl
  · rintro (⟨j, below, rest⟩ | rfl)
    · exact ⟨j, by omega, rest⟩
    · exact ⟨k, by omega, early, file, held, rfl⟩

theorem laid_of_late (late : p.IsLate t files k) :
    p.Laid t files (k + 1) a ↔ p.Laid t files k a := by
  constructor
  · rintro ⟨j, below, early', rest⟩
    refine ⟨j, Nat.lt_of_le_of_ne (by omega) ?_, early', rest⟩
    rintro rfl
    exact early' late
  · rintro ⟨j, below, rest⟩
    exact ⟨j, by omega, rest⟩

theorem Sound.free (h : p.Sound t files k s) (held : files[k]? = some file)
    (early : ¬ p.IsLate t files k) (described : Describes t file old parsed) :
    s.owners.lookup parsed.name = none := by
  rw [h.names]
  intro j below named
  obtain ⟨other, held', named'⟩ := Option.bind_eq_some_iff.1 named
  obtain ⟨_, parsed', _, described', same, _⟩ := loadedName?_eq_some named'
  rw [← same] at named'
  have loads := loadedName?_of_name described described' same.symm named'
  exact early ⟨_, (loadsAs_eq held).trans loads, j, below, named⟩

section Turn

variable (setting : p.Setting t files)

include setting

theorem Laid.grows (h : p.Laid t files k a) : Extends Entry.SameKind t a := by
  obtain ⟨other, _, rfl⟩ := h.mem
  exact aloneTree_grows setting.plain t other

theorem Sound.grows (h : p.Sound t files k s) : Extends Entry.SameKind t s.tree :=
  h.overlay.grows fun _ laid => laid.grows setting

theorem Sound.isRooted (h : p.Sound t files k s) : s.tree.Rooted :=
  h.overlay.rooted (fun _ laid => laid.grows setting) setting.rooted fun a laid => by
    obtain ⟨other, _, rfl⟩ := laid.mem
    exact setting.rooted_alone other

theorem Sound.read_unread (h : p.Sound t files k s) (held : file ∈ files)
    (unread : ¬ IsDescription t file) : s.tree.read file = t.read file ∧
      s.tree.read (Saving.siblingPath file) = t.read (Saving.siblingPath file) := by
  have grows : ∀ a, p.Laid t files k a → Extends Entry.SameKind t a :=
    fun _ laid => laid.grows setting
  constructor
  · refine h.overlay.read_eq grows setting.home fun _ at_ there a laid => ?_
    obtain ⟨other, held', rfl⟩ := laid.mem
    exact setting.separate.unread_kept setting.plain setting.home setting.rooted held held' unread
      there
  · refine h.overlay.read_eq grows setting.home fun admitted at_ there a laid => ?_
    obtain ⟨other, held', rfl⟩ := laid.mem
    exact setting.separate.beside_kept setting.plain setting.home setting.rooted held held' unread
      admitted there

theorem Sound.own (h : p.Sound t files k s) (held : files[k]? = some file)
    (early : ¬ p.IsLate t files k) (described : Describes t file old parsed)
    (own : p.OwnPlaces t file parsed at_) : s.tree.get? at_ = t.get? at_ := by
  by_contra changed
  obtain ⟨a, ⟨j, below, _, other, held', rfl⟩, same⟩ := h.overlay.only at_ changed
  obtain ⟨named', named⟩ := setting.separate.touched setting.plain setting.home setting.rooted
    (List.mem_of_getElem? held) (List.mem_of_getElem? held') described own (same ▸ changed)
  exact early ⟨_, (loadsAs_eq held).trans named, j, below, (loadsAs_eq held').trans named'⟩

theorem Sound.open (h : p.Sound t files k s) (held : file ∈ files)
    (described : Describes t file old parsed) : p.Open t s.tree parsed := by
  intro at_ way free content there
  obtain ⟨a, laid, same⟩ := h.overlay.only at_ (by rw [there, free]; exact nofun)
  obtain ⟨other, held', rfl⟩ := laid.mem
  exact setting.separate.not_file setting.plain setting.home setting.rooted held held' described way
    free content (same.trans there)

theorem Sound.described (h : p.Sound t files k s) (held : file ∈ files)
    (described : Describes t file old parsed) :
    ∃ text again, Describes s.tree file text again ∧ again.name = parsed.name := by
  have plain := setting.plain
  have grows := h.grows setting
  have at_ := described.get?_aim
  by_cases changed : s.tree.get? (t.aim file) = t.get? (t.aim file)
  · exact ⟨old, parsed, ⟨grows.readText_of_get? described.1 (changed.trans at_), described.2⟩, rfl⟩
  · obtain ⟨a, ⟨_, _, _, other, held', rfl⟩, same⟩ := h.overlay.only _ changed
    obtain ⟨place, described'⟩ := setting.separate.replaced plain setting.home setting.rooted
      held (List.mem_of_getElem? held') described (same ▸ changed)
    have aim : (p.aloneTree t other).aim other = t.aim file :=
      (Files.Tree.aim_congr (aloneTree_grows plain t other).home other).trans place
    rcases (p.works_alone t other).readText plain described' with kept | canonical
    · have held := Files.Tree.get?_aim (show (p.aloneTree t other).readText other = _ from kept)
      rw [aim, ← at_] at held
      exact absurd (same.symm.trans held) changed
    · have held := Files.Tree.get?_aim
        (show (p.aloneTree t other).readText other = _ from canonical)
      rw [aim] at held
      have read := grows.readText_of_get? described.1 (same.symm.trans held)
      obtain ⟨again, parses, sound, name⟩ :=
        Tool.exists_sound_of_canonicalText described.2.1 described.2.2
      exact ⟨_, again, ⟨read, parses, sound⟩, name⟩

theorem Sound.turn_late (h : p.Sound t files k s) (held : files[k]? = some file)
    (late : p.IsLate t files k) (works : p.Works s file result s') :
    p.loadedName? s.tree file = p.loadedName? t file ∧ s'.tree = s.tree ∧
      ∃ name owner, p.loadsAs t files k = some name ∧
        result = .error (.load file (.nameTaken name owner)) := by
  obtain ⟨name, named, j, below, named'⟩ := late
  obtain ⟨i, before, first, early⟩ := exists_first named'
  obtain ⟨other, held', loads⟩ := Option.bind_eq_some_iff.1 first
  obtain ⟨_, parsed', t₁, _, same, load⟩ := loadedName?_eq_some loads
  rw [loadsAs_eq held] at named
  obtain ⟨old, parsed, _, described, rfl, _⟩ := loadedName?_eq_some named
  obtain ⟨text, again, described', name⟩ :=
    h.described setting (List.mem_of_getElem? held) described
  have later : Extends Entry.SameKind t₁ s.tree :=
    (aloneTree_of_load setting.plain load).sameKind_trans
      (h.overlay.extends_of (fun _ laid => laid.grows setting)
        ⟨i, by omega, early, other, held', rfl⟩)
  have load' : Loading.load p.loadOptions s.tree file = (.ok (p.placed file again), s.tree) :=
    Loading.load_again load rfl id later (Loading.readValid_eq_ok.2 ⟨text, described'⟩)
      (name.trans same.symm)
  have named'' : (p.placed file again).name = parsed.name := name
  obtain ⟨owner, owned⟩ : ∃ owner, s.owners.lookup (p.placed file again).name = some owner := by
    rw [named'', ← Option.ne_none_iff_exists']
    intro free
    exact (h.names _).1 free i (by omega) first
  obtain ⟨rfl, rfl⟩ := works.eq_process
  obtain ⟨refused, kept⟩ := (Works.taken load' owned).eq_process
  refine ⟨(loadedName?_of_ok load').trans (by rw [named'', named]), by rw [← kept],
    parsed.name, owner, by rw [loadsAs_eq held, named], ?_⟩
  rw [← refused, named'']

theorem Sound.turn_unread (h : p.Sound t files k s) (held : file ∈ files)
    (unread : ¬ IsDescription t file) (works : p.Works s file result s') :
    p.loadedName? s.tree file = p.loadedName? t file ∧ result = p.aloneResult t file ∧
      s'.tree = s.tree := by
  obtain ⟨f, fails⟩ := load_of_unread (p := p) unread
  have same : s.tree.readText file = t.readText file := by
    unfold Tree.readText
    rw [(h.read_unread setting held unread).1]
  obtain ⟨rfl, rfl⟩ := works.eq_process
  rw [aloneResult, process_of_load_error (fails s.tree same),
    process_of_load_error (s := ⟨t, 0, []⟩) (fails t rfl), loadedName?_of_error (fails s.tree same),
    loadedName?_of_error (fails t rfl)]
  exact ⟨rfl, rfl, rfl⟩

theorem Sound.turn_described (h : p.Sound t files k s) (held : files[k]? = some file)
    (early : ¬ p.IsLate t files k) (described : Describes t file old parsed)
    (works : p.Works s file result s') :
    p.loadedName? s.tree file = p.loadedName? t file ∧ result = p.aloneResult t file ∧
      Overlays (p.Laid t files (k + 1)) t s'.tree := by
  have plain := setting.plain
  have root := setting.separate.root
  have grows := h.grows setting
  have isRooted := h.isRooted setting
  have own : ∀ at_, p.OwnPlaces t file parsed at_ → s.tree.get? at_ = t.get? at_ :=
    fun at_ => h.own setting held early described
  have start : Follows (p.OwnPlaces t file parsed) t s.tree t s.tree :=
    .start grows own setting.rooted
  have clear := h.open setting (List.mem_of_getElem? held) described
  obtain ⟨there, loaded, _⟩ := load_alike plain described setting.home isRooted root clear start
  obtain ⟨same, follows⟩ := process_alike setting.wrapper setting.steady described setting.home
    isRooted root clear (h.free held early described) start
  obtain ⟨rfl, final⟩ := works.eq_process
  rw [← final] at follows
  refine ⟨by rw [loadedName?, loadedName?, loaded], same, ?_⟩
  refine (h.overlay.next follows (aloneTree_grows plain t file) fun at_ changed => ?_).congr
    fun a => laid_succ held early
  obtain ⟨parsed', old', described', made | ⟨_, x, _, leads⟩⟩ :=
    (works.within plain).changed at_ changed
  · rw [made.free, grows.get?_eq_none made.free]
  · obtain ⟨rfl, rfl⟩ := there.unique described'
    refine own at_ ⟨x, leads.aim_eq.trans (Files.Tree.aim_congr ?_ _)⟩
    exact (works.within plain).grows.home.trans grows.home

/-- What one turn preserves. -/
theorem Sound.next (h : p.Sound t files k s) (held : files[k]? = some file)
    (works : p.Works s file result s') : p.Sound t files (k + 1) s' ∧
      p.loadedName? s.tree file = p.loadedName? t file ∧
      (¬ p.IsLate t files k → result = p.aloneResult t file) ∧
      (p.IsLate t files k → s'.tree = s.tree ∧ ∃ name owner, p.loadsAs t files k = some name ∧
        result = .error (.load file (.nameTaken name owner))) := by
  have done : p.loadedName? s.tree file = p.loadedName? t file ∧
      (¬ p.IsLate t files k → result = p.aloneResult t file) ∧
      (p.IsLate t files k → s'.tree = s.tree ∧ ∃ name owner, p.loadsAs t files k = some name ∧
        result = .error (.load file (.nameTaken name owner))) ∧
      Overlays (p.Laid t files (k + 1)) t s'.tree := by
    by_cases late : p.IsLate t files k
    · obtain ⟨loads, kept, refused⟩ := h.turn_late setting held late works
      refine ⟨loads, absurd late, fun _ => ⟨kept, refused⟩, ?_⟩
      rw [kept]
      exact h.overlay.congr fun a => laid_of_late late
    · by_cases there : IsDescription t file
      · obtain ⟨old, parsed, described⟩ := there
        obtain ⟨loads, same, overlay⟩ := h.turn_described setting held late described works
        exact ⟨loads, fun _ => same, fun now => absurd now late, overlay⟩
      · obtain ⟨loads, same, kept⟩ :=
          h.turn_unread setting (List.mem_of_getElem? held) there works
        refine ⟨loads, fun _ => same, fun now => absurd now late, ?_⟩
        have start : Follows (fun _ => False) t s.tree t s.tree :=
          .start (h.grows setting) (fun _ none => none.elim) setting.rooted
        have more := h.overlay.next start (.sameKind_refl t) fun _ changed => absurd rfl changed
        rw [kept]
        refine more.congr fun a => ?_
        rw [laid_succ held late, aloneTree_of_unread there]
  obtain ⟨loads, same, refused, overlay⟩ := done
  refine ⟨⟨fun name => ?_, overlay⟩, loads, same, refused⟩
  rw [works.lookup_owners, Option.or_eq_none_iff, h.names, loads, ← loadsAs_eq held,
    Nat.forall_lt_succ_right]
  refine and_congr_right fun _ => ?_
  split <;> simp_all

end Turn

inductive Belongs (p : Pipeline) (t : Tree) (file : Path) : Path → Prop
  | description : Belongs p t file file
  | sibling : Belongs p t file (Saving.siblingPath file)
  | product {old : String} {parsed : Tool} (described : Describes t file old parsed) (x : Product) :
      Belongs p t file (p.productPath file parsed x)

theorem standing_alone (plain : '/' ∉ p.renderer.extension.toList) (real : p.options.dryRun = false)
    (home : HasHome t) (described : Describes t file old parsed) (x : Product) :
    Standing (p.aloneTree t file) (p.productPath file parsed x) ∨
      x.isInside = true ∧ Blocked (p.aloneTree t file) (parsed.directory p.options.load) := by
  rcases load : Loading.load p.loadOptions t file with ⟨f | tool, t₁⟩
  · cases inside : x.isInside with
    | false =>
      have stands : Standing t (p.productPath file parsed x) :=
        standing_product plain described fun also => nomatch inside.symm.trans also
      exact .inl (stands.mono (aloneTree_grows plain t file))
    | true =>
      refine .inr ⟨rfl, ?_⟩
      rw [aloneTree, process_of_load_error (s := ⟨t, 0, []⟩) load]
      rcases load_error load with ⟨invalid, _⟩ | ⟨_, _, _, described', made⟩
      · cases invalid.symm.trans (Loading.readValid_eq_ok.2 ⟨old, described⟩)
      · obtain ⟨rfl, rfl⟩ := described.unique described'
        rw [Loading.makeDirectory, if_pos (createDirectories_of_real real)] at made
        exact Files.Tree.blocked_of_createDirectories home
          (Path.partsOf_join described.isName.1) made
  · obtain ⟨_, _, described', rfl, made⟩ := load_eq_ok.1 load
    obtain ⟨rfl, rfl⟩ := described.unique described'
    have stands : Standing t₁ (p.productPath file parsed x) :=
      standing_product plain (described.made made) fun _ => isDirectory_of_made real described made
    exact .inl (stands.mono (aloneTree_of_load plain load))

section Left

variable (setting : p.Setting t files)

include setting

theorem Sound.own_alone (h : p.Sound t files k s) (below : j < k) (held : files[j]? = some file)
    (early : ¬ p.IsLate t files j) (described : Describes t file old parsed)
    (own : p.OwnPlaces t file parsed at_) : s.tree.get? at_ = (p.aloneTree t file).get? at_ := by
  by_cases mine : (p.aloneTree t file).get? at_ = t.get? at_
  · rw [mine]
    by_contra changed
    obtain ⟨a, ⟨i, _, early', other, held', rfl⟩, same⟩ := h.overlay.only at_ changed
    obtain ⟨named', named⟩ := setting.separate.touched setting.plain setting.home setting.rooted
      (List.mem_of_getElem? held) (List.mem_of_getElem? held') described own (same ▸ changed)
    rw [← loadsAs_eq held] at named
    rw [← loadsAs_eq held'] at named'
    rcases Nat.lt_trichotomy i j with before | rfl | behind
    · exact early ⟨_, named, i, before, named'⟩
    · cases held.symm.trans held'
      exact changed (same.symm.trans mine)
    · exact early' ⟨_, named', j, behind, named⟩
  · exact h.overlay.done _ ⟨j, below, early, file, held, rfl⟩ at_ mine

theorem Sound.read_eq {q : Path} (real : p.options.dryRun = false) (h : p.Sound t files k s)
    (below : j < k) (held : files[j]? = some file) (early : ¬ p.IsLate t files j)
    (belongs : p.Belongs t file q) :
    s.tree.read q = (p.aloneTree t file).read q := by
  have plain := setting.plain
  have product : ∀ old parsed, Describes t file old parsed → ∀ x,
      s.tree.read (p.productPath file parsed x) =
        (p.aloneTree t file).read (p.productPath file parsed x) := by
    intro old parsed described x
    have later : Extends Entry.SameKind (p.aloneTree t file) s.tree :=
      h.overlay.extends_of (fun _ laid => laid.grows setting) ⟨j, below, early, file, held, rfl⟩
    rcases standing_alone plain real setting.home described x with stands | ⟨inside, blocked⟩
    · have own : ∀ at_, p.OwnPlaces t file parsed at_ →
          s.tree.get? at_ = (p.aloneTree t file).get? at_ :=
        fun at_ => h.own_alone setting below held early described
      have follows : Follows (p.OwnPlaces t file parsed) (p.aloneTree t file) s.tree
          (p.aloneTree t file) s.tree :=
        .start later own (setting.rooted_alone file)
      exact follows.read stands ⟨x, Files.Tree.aim_congr (aloneTree_grows plain t file).home _⟩
    · obtain ⟨site, n, rfl, isName⟩ := Files.Tree.join_of_readText described.1
      rw [productPath_inside isName inside]
      exact blocked.read_inside described.isName.1 (Product.isName_name isName plain x) later
  by_cases there : IsDescription t file
  · obtain ⟨old, parsed, described⟩ := there
    cases belongs with
    | description => exact product old parsed described .description
    | sibling => exact product old parsed described .sibling
    | product described x => exact product _ _ described x
  · rw [aloneTree_of_unread there]
    obtain ⟨same, beside⟩ := h.read_unread setting (List.mem_of_getElem? held) there
    cases belongs with
    | description => exact same
    | sibling => exact beside
    | product described x => exact absurd ⟨_, _, described⟩ there

end Left

end Toolwright.Pipeline
