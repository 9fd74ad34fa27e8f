import Toolwright.Proofs.Run.Marks

/-!
Descriptions that keep out of each other's way. No description is where a sibling of another one is
written, or in a directory of a tool or above one, or to be looked for along something that is made
only on the run. Then products of two descriptions are at one place only if both descriptions have
the same text, and what is no valid description is left alone.
-/

namespace Toolwright.Pipeline

open Files (Entry IsName Location Tree)
open Files.Tree (Admitted Extends Follows HasHome Leads)

variable {p : Pipeline} {s s' : RunState} {t u : Tree} {file other : Path} {parsed parsed' : Tool}
  {old old' : String} {at_ : Location} {files : List Path} {x y : Product}

/-- One place is the other or on the way to it. -/
def Along (a b : Location) : Prop := a <+: b ∨ b <+: a

instance (a b : Location) : Decidable (Along a b) := inferInstanceAs (Decidable (_ ∨ _))

/-- Descriptions and their siblings are at places of their own. No description is a sibling of
another one, and neither descriptions nor siblings are directories of tools, in one or on the way to
one. -/
structure Apart (p : Pipeline) (t : Tree) (files : List Path) : Prop where
  sibling : ∀ a ∈ files, ∀ b ∈ files, a ≠ b → t.aim a ≠ t.aim (Saving.siblingPath b)
  output : ∀ a ∈ files, ∀ b ∈ files, ∀ old parsed, Describes t b old parsed →
    ¬ Along (t.aim a) (t.aim (parsed.directory p.options.load)) ∧
      ¬ Along (t.aim (Saving.siblingPath a)) (t.aim (parsed.directory p.options.load))

/-- The descriptions of a list keep out of each other's way. Where nothing is to be found on the way
to a description, nothing is made for others (`way`). The root of the directories steps upwards only
out of what is there (`root`). -/
structure Separate (p : Pipeline) (t : Tree) (files : List Path) : Prop
    extends Apart p t files where
  way : ∀ a ∈ files, ∀ at_, t.gap? a = some at_ → ∀ b ∈ files,
    at_ ≠ t.aim (Saving.siblingPath b) ∧ ∀ old parsed, Describes t b old parsed →
      ¬ Along at_ (t.aim (parsed.directory p.options.load))
  root : p.RootClimbs t

theorem Separate.apart (h : p.Separate t files) (held : file ∈ files) (held' : other ∈ files)
    (described : Describes t file old parsed) : t.aim file ≠ t.aim (Saving.siblingPath other) := by
  by_cases same : file = other
  · subst same
    obtain ⟨site, n, rfl, isName⟩ := Files.Tree.join_of_readText described.1
    rw [aim_sibling isName, Files.Tree.aim_join isName]
    intro same
    have last : n = n ++ ".new" := by simpa using (List.append_inj' same rfl).2
    simpa using congrArg String.length last
  · exact h.sibling file held other held' same

theorem Separate.outside (h : p.Separate t files) (held : file ∈ files) (held' : other ∈ files)
    (outside : x.isInside = false) (described' : Describes t other old' parsed') :
    ¬ Along (t.aim (p.productPath file parsed x)) (t.aim (parsed'.directory p.options.load)) := by
  obtain ⟨apart, beside⟩ := h.output file held other held' old' parsed' described'
  cases x with
  | description => exact apart
  | sibling => exact beside
  | wrapper => cases outside
  | archive i => cases outside

section Separate

variable (plain : '/' ∉ p.renderer.extension.toList) (h : p.Separate t files) (held : file ∈ files)
  (held' : other ∈ files) (described : Describes t file old parsed)
  (described' : Describes t other old' parsed')

include plain h held held' described described'

theorem Separate.not_prefix : ¬ t.aim (p.productPath file parsed x) <+:
    t.aim (parsed'.directory p.options.load) := by
  intro way
  cases inside : x.isInside with
  | true =>
    obtain ⟨name, aim⟩ := aim_inside plain described inside
    have short := way.length_le
    rw [aim, aim_directory t described.isName.1, aim_directory t described'.isName.1] at short
    simp at short
  | false => exact h.outside held held' inside described' (.inl way)

theorem Separate.meet
    (same : t.aim (p.productPath file parsed x) = t.aim (p.productPath other parsed' y)) :
    parsed.name = parsed'.name ∧ (y.isInside = false → t.aim file = t.aim other ∧ x = y) := by
  obtain ⟨site, n, rfl, isName, aim⟩ := aim_product plain described
  obtain ⟨site', n', rfl, isName', aim'⟩ := aim_product plain described'
  -- by kinds of products: those in the directory of a tool never meet those beside a description
  have one : t.aim (site.join ⟨n⟩) = t.aim (site'.join ⟨n'⟩) → parsed.name = parsed'.name :=
    fun one => by rw [(described.eq_of_aim described' one).2]
  cases inside : x.isInside with
  | true =>
    obtain ⟨name, whole⟩ := aim_inside plain described inside
    cases inside' : y.isInside with
    | true =>
      obtain ⟨name', whole'⟩ := aim_inside plain described' inside'
      rw [whole, whole', aim_directory t described.isName.1,
        aim_directory t described'.isName.1] at same
      obtain ⟨front, _⟩ := List.append_inj' same rfl
      exact ⟨by simpa using (List.append_inj' front rfl).2, nofun⟩
    | false =>
      have apart : ¬ Along (t.aim (p.productPath _ parsed' y)) _ :=
        h.outside held' held inside' described
      refine absurd (.inr ?_) apart
      rw [← same, whole]
      exact List.prefix_append _ _
  | false =>
    cases inside' : y.isInside with
    | true =>
      obtain ⟨name', whole'⟩ := aim_inside plain described' inside'
      have apart : ¬ Along (t.aim (p.productPath _ parsed x)) _ :=
        h.outside held held' inside described'
      refine absurd (.inr ?_) apart
      rw [same, whole']
      exact List.prefix_append _ _
    | false =>
      cases x with
      | description =>
        cases y with
        | description => exact ⟨one same, fun _ => ⟨same, rfl⟩⟩
        | sibling => exact absurd same (h.apart held held' described)
        | wrapper => cases inside'
        | archive i => cases inside'
      | sibling =>
        cases y with
        | description => exact absurd same.symm (h.apart held' held described')
        | sibling =>
          rw [aim, aim'] at same
          obtain ⟨front, last⟩ := List.append_inj' same rfl
          have names : n = n' := by simpa [Product.name] using last
          have both : t.aim (site.join ⟨n⟩) = t.aim (site'.join ⟨n'⟩) := by
            rw [Files.Tree.aim_join isName, Files.Tree.aim_join isName', names]
            exact congrArg (· ++ [n']) front
          exact ⟨one both, fun _ => ⟨both, rfl⟩⟩
        | wrapper => cases inside'
        | archive i => cases inside'
      | wrapper => cases inside
      | archive i => cases inside

end Separate

theorem loadedName?_of_name (described : Describes t file old parsed)
    (described' : Describes t other old' parsed') (same : parsed.name = parsed'.name)
    (loaded : p.loadedName? t other = some parsed'.name) :
    p.loadedName? t file = some parsed.name := by
  rcases load : Loading.load p.loadOptions t other with ⟨f | tool, t'⟩
  · rw [loadedName?_of_error load] at loaded
    cases loaded
  · obtain ⟨again, _, described'', _, made⟩ := load_eq_ok.1 load
    obtain ⟨_, rfl⟩ := described'.unique described''
    have directory : parsed'.directory p.options.load = parsed.directory p.options.load := by
      rw [Tool.directory, Tool.directory, same]
    rw [directory] at made
    have load' : Loading.load p.loadOptions t file = (.ok (p.placed file parsed), t') :=
      load_eq_ok.2 ⟨parsed, old, described, rfl, made⟩
    have named := loadedName?_of_ok load'
    exact named

theorem Describes.locate_of_beside (described : Describes t other old parsed)
    (admitted : Admitted (file.extend ".new")) {before : List Files.Tree.Part} {last : List Char}
    {above : Location} (parts : Files.Tree.partsOf file = before ++ [Files.Tree.partOf last])
    (leads : Files.Tree.Above t file.isAbsolute before above)
    (same : above ++ [String.ofList last ++ ".new"] = t.aim (Saving.siblingPath other)) :
    t.locate file = t.locate other := by
  obtain ⟨site, n, rfl, isName⟩ := Files.Tree.join_of_readText described.1
  obtain ⟨_, way⟩ := Files.Tree.readText_eq_ok.1 described.1
  have ends := Path.endsWith_join isName (p := site)
  obtain ⟨above', leads', here⟩ := Leads.above ends ⟨_, way⟩
  have place := Leads.aim_eq ⟨_, way⟩
  rw [here, Files.Tree.aim_join isName] at place
  obtain ⟨rfl, _⟩ := List.append_inj' place rfl
  rw [aim_sibling isName] at same
  obtain ⟨rfl, name⟩ := List.append_inj' same rfl
  obtain rfl : last = n.toList := by
    simpa using congrArg String.toList (List.singleton_inj.1 name)
  rw [isName.partOf] at parts
  have nonempty : file.text.isEmpty = false := by
    rw [Bool.eq_false_iff]
    intro empty
    have none : file.text = "" := by simpa using empty
    have stays : Files.Tree.partsOf file = [] ++ [.stay] := by
      rw [Files.Tree.partsOf, none]
      rfl
    cases (List.append_inj' (stays.symm.trans parts) rfl).2
  rw [Files.Tree.locate_of_above ⟨rfl, parts⟩ (admitted.of_extend nonempty) leads,
    Files.Tree.locate_of_above ends (Files.Tree.locate_eq_ok.1 way).1 leads']

section Separate

variable (plain : '/' ∉ p.renderer.extension.toList) (home : HasHome t) (rooted : t.Rooted)
  (h : p.Separate t files)

include plain home rooted h

/-- A place that is no directory of a tool, in none and on the way to none, is changed only as a
description or a sibling. -/
theorem Separate.marks_outside (changed : (p.aloneTree t other).get? at_ ≠ t.get? at_)
    (apart : ∀ old parsed, Describes t other old parsed →
      ¬ Along at_ (t.aim (parsed.directory p.options.load))) :
    ∃ old parsed, Describes t other old parsed ∧
      (at_ = t.aim other ∨ at_ = t.aim (Saving.siblingPath other)) := by
  obtain ⟨old', parsed', described', marks⟩ := marks_of_changed plain home rooted h.root changed
  refine ⟨old', parsed', described', ?_⟩
  cases marks with
  | directory _ _ way => exact absurd (.inl way) (apart old' parsed' described')
  | product _ own =>
    obtain ⟨x, rfl⟩ := own
    cases inside : x.isInside with
    | true =>
      obtain ⟨name, aim⟩ := aim_inside plain described' inside
      refine absurd (.inr ?_) (apart old' parsed' described')
      rw [aim]
      exact List.prefix_append _ _
    | false =>
      cases x with
      | description => exact .inl rfl
      | sibling => exact .inr rfl
      | wrapper => cases inside
      | archive i => cases inside

variable (held : file ∈ files) (held' : other ∈ files)

include held held'

theorem Separate.touched (described : Describes t file old parsed)
    (own : p.OwnPlaces t file parsed at_) (changed : (p.aloneTree t other).get? at_ ≠ t.get? at_) :
    p.loadedName? t other = some parsed.name ∧ p.loadedName? t file = some parsed.name := by
  obtain ⟨old', parsed', described', marks⟩ := marks_of_changed plain home rooted h.root changed
  obtain ⟨x, rfl⟩ := own
  cases marks with
  | directory free made way =>
    exact absurd way (h.not_prefix plain held held' described described')
  | product loaded own =>
    obtain ⟨y, same⟩ := own
    have names := (h.meet plain held held' described described' same).1
    exact ⟨names ▸ loaded, loadedName?_of_name described described' names loaded⟩

theorem Separate.replaced (described : Describes t file old parsed)
    (changed : (p.aloneTree t other).get? (t.aim file) ≠ t.get? (t.aim file)) :
    t.aim other = t.aim file ∧ Describes t other old parsed := by
  obtain ⟨old', parsed', described', marks⟩ := marks_of_changed plain home rooted h.root changed
  suffices same : t.aim other = t.aim file by
    obtain ⟨rfl, rfl⟩ := described'.eq_of_aim described same
    exact ⟨same, described'⟩
  cases marks with
  | directory free _ _ =>
    rw [described.get?_aim] at free
    cases free
  | product _ own =>
    obtain ⟨y, same⟩ := own
    have met : t.aim (p.productPath other parsed' y) =
        t.aim (p.productPath file parsed .description) :=
      same.symm
    exact ((h.meet plain held' held described' described met).2 rfl).1

theorem Separate.not_file (described : Describes t file old parsed)
    (way : at_ <+: t.aim (parsed.directory p.options.load)) (free : t.get? at_ = none)
    (content : ByteArray) : (p.aloneTree t other).get? at_ ≠ some (.file content) := by
  intro there
  obtain ⟨old', parsed', described', marks⟩ :=
    @marks_of_changed p t other at_ plain home rooted h.root (by rw [there, free]; exact nofun)
  cases marks with
  | directory _ made _ =>
    rw [there] at made
    cases made
  | product _ own =>
    obtain ⟨x, rfl⟩ := own
    exact h.not_prefix plain held' held described' described way

theorem Separate.unread_kept (unread : ¬ IsDescription t file)
    (there : t.gap? file = some at_ ∨ Leads t file at_) :
    (p.aloneTree t other).get? at_ = t.get? at_ := by
  by_contra changed
  rcases there with gap | leads
  · obtain ⟨beside, apart⟩ := h.way file held at_ gap other held'
    obtain ⟨old', parsed', described', rfl | rfl⟩ :=
      h.marks_outside plain home rooted changed apart
    · have free := Files.Tree.get?_gapFrom gap
      rw [described'.get?_aim] at free
      cases free
    · exact beside rfl
  · obtain rfl := leads.aim_eq
    obtain ⟨old', parsed', described', same | same⟩ :=
      h.marks_outside plain home rooted changed fun old' parsed' described' =>
        (h.output file held other held' old' parsed' described').1
    · obtain ⟨e, way⟩ := leads
      have content := rooted.get?_locate way
      rw [same, described'.get?_aim] at content
      cases content
      exact unread ⟨old', parsed', Files.Tree.readText_eq_ok.2 ⟨_, way⟩, described'.2⟩
    · refine h.sibling file held other held' ?_ same
      rintro rfl
      exact unread ⟨old', parsed', described'⟩

theorem Separate.beside_kept (unread : ¬ IsDescription t file)
    (admitted : Admitted (file.extend ".new"))
    (there : t.gap? (Saving.siblingPath file) = some at_ ∨ Leads t (Saving.siblingPath file) at_) :
    (p.aloneTree t other).get? at_ = t.get? at_ := by
  obtain ⟨before, last, parts, ends⟩ :
      ∃ before last, Files.Tree.partsOf file = before ++ [Files.Tree.partOf last] ∧
        Files.Tree.EndsWith (Saving.siblingPath file) file.isAbsolute before
          (String.ofList last ++ ".new") :=
    Files.Tree.endsWith_extend file (by decide) (by decide)
  rcases Files.Tree.seen_cases home ends there with gap | ⟨above, leads, rfl⟩
  · refine h.unread_kept plain home rooted held held' unread (.inl ?_)
    rw [Files.Tree.gap?, parts, Files.Tree.gapFrom_append, gap]
    rfl
  · have aim : above ++ [String.ofList last ++ ".new"] = t.aim (Saving.siblingPath file) := by
      rw [Files.Tree.aim, ends.absolute, ends.parts, Files.Tree.aimFrom_append, ← leads.aim_eq]
      rfl
    rw [aim]
    by_contra changed
    obtain ⟨old', parsed', described', same | same⟩ :=
      h.marks_outside plain home rooted changed fun old' parsed' described' =>
        (h.output file held other held' old' parsed' described').2
    · exact h.apart held' held described' same.symm
    · rw [← aim] at same
      have locate := described'.locate_of_beside admitted parts leads same
      obtain ⟨at', way⟩ := Files.Tree.readText_eq_ok.1 described'.1
      have read : t.readText file = .ok old' := Files.Tree.readText_eq_ok.2 ⟨_, locate.trans way⟩
      exact unread ⟨old', parsed', read, described'.2⟩

end Separate

end Toolwright.Pipeline
