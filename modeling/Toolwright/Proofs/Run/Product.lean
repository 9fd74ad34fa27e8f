import Toolwright.Proofs.Archive.Isolation
import Toolwright.Proofs.Files.Places
import Toolwright.Proofs.Loading.Again
import Toolwright.Discovery
import Toolwright.Rendering
import Toolwright.Saving

/-!
What is written for a description: the wrapper and the archives in the directory of the tool, and
the description itself or the sibling next to it. The kind of a product can be told from the last
character of its name, so products are kept apart by the names of tools and of descriptions.
-/

namespace Toolwright

open Files (IsName Location Tree)
open Files.Tree (Above Leads)

theorem Path.stem_ne_empty {name : String} (h : name ≠ "") : stem name ≠ "" := by
  unfold stem
  dsimp only
  split
  · exact h
  · rename_i before
    intro empty
    exact before (by simpa using congrArg String.toList empty)

theorem Tool.isName_of_nameDefect?_eq_none {t : Tool} (sound : t.nameDefect? = none) :
    IsName t.name ∧ '\\' ∉ t.name.toList := by
  obtain ⟨nonempty, plain⟩ := name_of_nameDefect?_eq_none sound
  unfold nameDefect? at sound
  dsimp only at sound
  split at sound
  · cases sound
  · split at sound
    · cases sound
    · rename_i usable
      simp only [not_or] at usable
      refine ⟨⟨fun empty => nonempty (by rw [empty]; rfl),
        fun here => usable.1 (by rw [here]; decide), fun up => usable.2.1 (by rw [up]; decide),
        plain⟩, fun slash => ?_⟩
      exact usable.2.2 (List.any_eq_true.2 ⟨'\\', slash, rfl⟩)

theorem Files.Tree.join_of_readText {t : Tree} {file : Path} {text : String}
    (read : t.readText file = .ok text) :
    ∃ (site : Path) (name : String), file = site.join ⟨name⟩ ∧ IsName name := by
  obtain ⟨_, way⟩ := readText_eq_ok.1 read
  obtain ⟨_, _, _, way⟩ := locate_eq_ok.1 way
  obtain ⟨_, name, _, parts, _⟩ := walk_file (partsOf_ne_nil file) way
  obtain ⟨isName, site, same⟩ := Path.eq_join_of_parts parts
  exact ⟨site, name, same, isName⟩

inductive Product where
  | wrapper
  | archive (index : Nat)
  | description
  | sibling
  deriving DecidableEq

namespace Product

def path (r : Renderer) (tool : Tool) : Product → Path
  | .wrapper => r.generatedPath tool
  | .archive index => tool.referencePath index
  | .description => tool.definitionFile
  | .sibling => Saving.siblingPath tool.definitionFile

def isInside : Product → Bool
  | .wrapper => true
  | .archive _ => true
  | .description => false
  | .sibling => false

/-- The name of a product, from the name of the description. -/
def name (extension file : String) : Product → String
  | .wrapper => Path.stem file ++ (".Generated." ++ extension)
  | .archive index => Path.stem file ++ (".ref." ++ Tool.threeDigits index ++ ".txt")
  | .description => file
  | .sibling => file ++ ".new"

/-- The names that lead to a product from where tools or descriptions are. -/
def tail (extension tool file : String) (x : Product) : List String :=
  if x.isInside then [tool, x.name extension file] else [x.name extension file]

theorem getLast?_tail (extension tool file : String) (x : Product) :
    (x.tail extension tool file).getLast? = some (x.name extension file) := by
  cases x <;> rfl

theorem isName_name {extension file : String} (h : IsName file) (plain : '/' ∉ extension.toList)
    (x : Product) : IsName (x.name extension file) := by
  have stem := Path.stem_plain h.plain
  cases x with
  | wrapper =>
    refine .of_length ?_ ?_
    · simpa [name, stem] using plain
    · simp only [name, String.toList_append, List.length_append]
      have long : ".Generated.".toList.length = 11 := rfl
      omega
  | archive index =>
    have archive := Tool.archiveSuffix_plain index
    refine .of_length ?_ ?_
    · rw [name, String.toList_append, List.mem_append, not_or]
      exact ⟨stem, fun slash => absurd (archive '/' slash) (by decide)⟩
    · simp only [name, String.toList_append, List.length_append]
      have long : ".ref.".toList.length = 5 := rfl
      omega
  | description => exact h
  | sibling =>
    refine .of_length ?_ ?_
    · simpa [name] using h.plain
    · simp only [name, String.toList_append, List.length_append]
      have long : ".new".toList.length = 4 := rfl
      omega

/-- What the directories of tools, or else the descriptions, are in. -/
def home (root site : Path) (x : Product) : Path := if x.isInside then root else site

section Loaded

variable {parsed : Tool} {options : LoadOptions} {site : Path} {n : String} {t : Tree}
  {at_ : Location} {x : Product}

theorem outputPath_placed (isName : IsName n) (suffix : String) :
    ((parsed.placed options (site.join ⟨n⟩)).wired).outputPath suffix =
      (parsed.directory options).join ⟨Path.stem n ++ suffix⟩ := by
  have relative : Path.isAbsolute ⟨Path.stem n⟩ = false :=
    Path.isAbsolute_of_plain (Path.stem_plain isName.plain)
  have base : ((parsed.placed options (site.join ⟨n⟩)).wired).generationBase =
      (parsed.directory options).join ⟨Path.stem n⟩ := by
    simp [Tool.wired, Tool.placed, Path.fileStem?, Path.fileName?_join isName]
  rw [Tool.outputPath, base]
  exact Path.extend_join relative suffix (Path.stem_ne_empty isName.ne_empty)

theorem path_eq (r : Renderer) (isName : IsName n) (x : Product) :
    x.path r (parsed.placed options (site.join ⟨n⟩)).wired =
      (if x.isInside then parsed.directory options else site).join ⟨x.name r.extension n⟩ := by
  cases x with
  | wrapper => exact outputPath_placed isName _
  | archive index => exact outputPath_placed isName _
  | description => rfl
  | sibling => exact Path.extend_join isName.relative ".new" isName.ne_empty

variable {r : Renderer} (tool : IsName parsed.name) (isName : IsName n)
  (plain : '/' ∉ r.extension.toList)

include tool isName plain

theorem above_of_leads (h : Leads t (x.path r (parsed.placed options (site.join ⟨n⟩)).wired) at_) :
    ∃ base, Above t (x.home options.outputRoot site).isAbsolute
      (x.home options.outputRoot site).front base ∧
      at_ = base ++ x.tail r.extension parsed.name n := by
  rw [path_eq r isName] at h
  obtain ⟨above, leads, rfl⟩ := h.above (Path.endsWith_join (isName_name isName plain x))
  unfold home tail
  cases inside : x.isInside with
  | false =>
    simp only [inside, Bool.false_eq_true, if_false] at leads ⊢
    exact ⟨above, leads, rfl⟩
  | true =>
    simp only [inside, if_true, Tool.directory, Path.isAbsolute_join tool,
      Path.front_join tool] at leads ⊢
    obtain ⟨outer, ahead, rfl⟩ := leads.of_snoc
    exact ⟨outer, ahead, by simp⟩

theorem steps_path : (x.path r (parsed.placed options (site.join ⟨n⟩)).wired).steps =
    (x.home options.outputRoot site).steps ++ (x.tail r.extension parsed.name n).map .entry := by
  rw [path_eq r isName, Path.steps_join (isName_name isName plain x)]
  unfold home tail
  cases x.isInside with
  | false => simp
  | true => simp [Tool.directory, Path.steps_join tool]

end Loaded

/-- The last character of the name of a product, for descriptions that end in `.json` and wrappers
that end in `.rs`. -/
def lastOf : Product → Char
  | .wrapper => 's'
  | .archive _ => 't'
  | .description => 'n'
  | .sibling => 'w'

variable {m m' n n' : String} {x y : Product}

theorem getLast?_name (json : Discovery.hasJsonEnd n = true) (x : Product) :
    (x.name "rs" n).toList.getLast? = some x.lastOf := by
  obtain ⟨front, whole⟩ := List.isSuffixOf_iff_suffix.1 json
  cases x with
  | wrapper => simp [name, lastOf]
  | archive index => simp [name, lastOf, List.getLast?_cons]
  | description => simp [name, lastOf, ← whole]
  | sibling => simp [name, lastOf]

theorem lastOf_eq_of_name_eq (json : Discovery.hasJsonEnd n = true)
    (json' : Discovery.hasJsonEnd n' = true) (h : x.name "rs" n = y.name "rs" n') :
    x.lastOf = y.lastOf := by
  have same := getLast?_name json x
  rw [h, getLast?_name json' y] at same
  exact (Option.some.inj same).symm

theorem eq_of_name_eq (json : Discovery.hasJsonEnd n = true)
    (json' : Discovery.hasJsonEnd n' = true) (h : x.name "rs" n = y.name "rs" n') :
    x.isInside = y.isInside ∧ (x.isInside = false → n = n') ∧ (n = n' → x = y) := by
  have last := lastOf_eq_of_name_eq json json' h
  cases x <;> cases y <;> try (simp [lastOf] at last; done)
  case wrapper.wrapper => exact ⟨rfl, nofun, fun _ => rfl⟩
  case archive.archive i j =>
    refine ⟨rfl, nofun, ?_⟩
    rintro rfl
    have suffix : Tool.archiveSuffix i = Tool.archiveSuffix j := by
      rw [Tool.archiveSuffix, Tool.archiveSuffix]
      exact congrArg String.toList ((String.append_right_inj _).1 h)
    rw [Tool.eq_of_archiveSuffix_eq suffix]
  case description.description => exact ⟨rfl, fun _ => h, fun _ => rfl⟩
  case sibling.sibling => exact ⟨rfl, fun _ => (String.append_left_inj _).1 h, fun _ => rfl⟩

theorem name_ne {extension : String} (inside : x.isInside = true) : x.name extension n ≠ n := by
  cases x with
  | wrapper =>
    have dots : (".Generated." ++ extension).toList =
        '.' :: ("Generated." ++ extension).toList := by
      simp
    exact Path.stem_append_ne dots (by simp)
  | archive index =>
    have dots : (".ref." ++ Tool.threeDigits index ++ ".txt").toList =
        '.' :: ("ref." ++ Tool.threeDigits index ++ ".txt").toList := by simp
    exact Path.stem_append_ne dots (by simp)
  | description => cases inside
  | sibling => cases inside

theorem tail_eq {α : Type} {entry : String → α} (injective : Function.Injective entry)
    {base base' : List α}
    (h : base ++ (x.tail "rs" m n).map entry = base' ++ (y.tail "rs" m' n').map entry) :
    x.name "rs" n = y.name "rs" n' ∧ (base = base' → x.tail "rs" m n = y.tail "rs" m' n') := by
  constructor
  · have last := congrArg List.getLast? h
    simp only [List.getLast?_append, List.getLast?_map, getLast?_tail, Option.map_some,
      Option.some_or, Option.some.injEq] at last
    exact injective last
  · rintro rfl
    exact List.map_injective_iff.2 injective (List.append_cancel_left h)

end Product

/-- The paths are the same step by step, or they lead to the same place. -/
def Path.Meets (t : Tree) (p q : Path) : Prop :=
  p.steps = q.steps ∨ ∃ at_, Leads t p at_ ∧ Leads t q at_

def DescriptionIn (site file : Path) : Prop :=
  ∃ n, IsName n ∧ Discovery.hasJsonEnd n = true ∧ file = site.join ⟨n⟩

section Meets

variable {site file file' : Path} {parsed parsed' : Tool} {options : LoadOptions} {t : Tree}
  {x y : Product}

theorem Product.tail_eq_of_meets {n n' : String} (isName : IsName n) (isName' : IsName n')
    (tool : IsName parsed.name) (tool' : IsName parsed'.name)
    (meets : Path.Meets t (x.path .wrapper (parsed.placed options (site.join ⟨n⟩)).wired)
      (y.path .wrapper (parsed'.placed options (site.join ⟨n'⟩)).wired)) :
    x.name "rs" n = y.name "rs" n' ∧
      (x.isInside = y.isInside → x.tail "rs" parsed.name n = y.tail "rs" parsed'.name n') := by
  have plain : '/' ∉ Renderer.wrapper.extension.toList := by decide
  have homes : x.isInside = y.isInside →
      x.home options.outputRoot site = y.home options.outputRoot site := by
    intro kind
    rw [home, home, kind]
  rcases meets with steps | ⟨at_, leads, leads'⟩
  · rw [steps_path tool isName plain, steps_path tool' isName' plain] at steps
    obtain ⟨names, tails⟩ := tail_eq (fun _ _ => Path.Step.entry.inj) steps
    exact ⟨names, fun kind => tails (by rw [homes kind])⟩
  · obtain ⟨base, above, rfl⟩ := above_of_leads tool isName plain leads
    obtain ⟨base', above', same⟩ := above_of_leads tool' isName' plain leads'
    have mapped : base ++ (x.tail "rs" parsed.name n).map id =
        base' ++ (y.tail "rs" parsed'.name n').map id := by
      rw [List.map_id, List.map_id]
      exact same
    obtain ⟨names, tails⟩ := tail_eq Function.injective_id mapped
    refine ⟨names, fun kind => tails ?_⟩
    rw [homes kind] at above
    exact above.unique above'

variable (described : DescriptionIn site file) (described' : DescriptionIn site file')
  (tool : IsName parsed.name) (tool' : IsName parsed'.name)

include described described' tool tool'

theorem Product.lastOf_eq_of_meets
    (meets : Path.Meets t (x.path .wrapper (parsed.placed options file).wired)
      (y.path .wrapper (parsed'.placed options file').wired)) : x.lastOf = y.lastOf := by
  obtain ⟨n, isName, json, rfl⟩ := described
  obtain ⟨n', isName', json', rfl⟩ := described'
  exact lastOf_eq_of_name_eq json json' (tail_eq_of_meets isName isName' tool tool' meets).1

/-- Products that meet are the same product of the same description, if tools of one name have one
description. -/
theorem Product.eq_of_meets
    (owner : x.isInside = true → y.isInside = true → parsed.name = parsed'.name → file = file')
    (meets : Path.Meets t (x.path .wrapper (parsed.placed options file).wired)
      (y.path .wrapper (parsed'.placed options file').wired)) : file = file' ∧ x = y := by
  obtain ⟨n, isName, json, rfl⟩ := described
  obtain ⟨n', isName', json', rfl⟩ := described'
  obtain ⟨names, tails⟩ := tail_eq_of_meets isName isName' tool tool' meets
  obtain ⟨kind, outside, same⟩ := eq_of_name_eq json json' names
  -- outside the name of the product tells the description; inside the owner of the tool's name does
  have one : n = n' := by
    cases inside : x.isInside with
    | false => exact outside inside
    | true =>
      have inside' : y.isInside = true := kind ▸ inside
      have tails := tails kind
      rw [tail, tail, if_pos inside, if_pos inside'] at tails
      have whole := congrArg Path.fileName? (owner inside inside' (List.cons.inj tails).1)
      rw [Path.fileName?_join isName, Path.fileName?_join isName'] at whole
      exact Option.some.inj whole
  exact ⟨by rw [one], same one⟩

end Meets

end Toolwright
