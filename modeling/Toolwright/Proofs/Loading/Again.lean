import Toolwright.Proofs.Files.Directory
import Toolwright.Proofs.Loading.Reload

/-!
Loading twice. Once a tool was loaded its directory is there, and it stays there whatever is written
to files. Loading the same path again therefore succeeds and makes nothing: it gives the same tool
when the description has the same text, and the tool without read-only properties and without what
says nothing when the description holds the canonical text. A canonical text at another path, loaded
with other options, gives a tool with that same canonical text.
-/

namespace Toolwright

open Json
open Files (Entry Tree)

namespace Tool

theorem normal_placed_wired_eq (t : Tool) (options : LoadOptions) (file : Path) :
    (t.normal.placed options file).wired =
      (t.placed options file).wired.settableOnly.tidied := by
  have tasks : ∀ name, (t.tasks.map Task.normal).mapIdx (wiredTask name) =
      ((t.tasks.mapIdx (wiredTask name)).map Task.settableOnly).map Task.tidied := by
    intro name
    refine List.ext_getElem (by simp) fun i _ _ => ?_
    simp only [List.getElem_map, List.getElem_mapIdx]
    rfl
  rw [normal_parts]
  simp only [placed, wired, settableOnly, tidied, tasks, List.map_map]
  rfl

theorem name_of_nameDefect?_eq_none {t : Tool} (sound : t.nameDefect? = none) :
    t.name.toList ≠ [] ∧ '/' ∉ t.name.toList := by
  unfold nameDefect? at sound
  dsimp only at sound
  split at sound
  · cases sound
  · rename_i visible
    split at sound
    · cases sound
    · rename_i usable
      simp only [not_or] at usable
      constructor
      · intro blank
        exact visible (by rw [Text.trimmed, blank]; rfl)
      · intro slash
        exact usable.2.2 (List.any_eq_true.2 ⟨'/', slash, rfl⟩)

theorem directory_of_nameDefect?_eq_none {t : Tool} (sound : t.nameDefect? = none)
    (options : LoadOptions) :
    (t.directory options).text.isEmpty = false ∧
      Tree.endsWithSlash (t.directory options) = false := by
  obtain ⟨nonempty, noSlash⟩ := name_of_nameDefect?_eq_none sound
  have relative : Path.isAbsolute ⟨t.name⟩ = false := by
    cases name : t.name.toList with
    | nil => exact absurd name nonempty
    | cons c rest =>
      have first : c ≠ '/' := fun slash => noSlash (by simp [name, slash])
      simp [Path.isAbsolute, name, first]
  have ends : ∃ front, (t.directory options).text = front ++ t.name := by
    unfold directory Path.join
    rw [relative, if_neg Bool.false_ne_true]
    split
    · exact ⟨_, rfl⟩
    · exact ⟨options.outputRoot.text ++ "/", rfl⟩
  obtain ⟨front, text⟩ := ends
  have last : (front.toList ++ t.name.toList).getLast? ≠ some '/' := by
    rw [List.getLast?_append, List.getLast?_eq_some_getLast nonempty, Option.some_or]
    intro slash
    exact noSlash (Option.some.inj slash ▸ List.getLast_mem nonempty)
  constructor
  · rw [text]
    simpa using fun _ => fun blank => nonempty (by rw [blank]; rfl)
  · simpa [Tree.endsWithSlash, text] using last

end Tool

namespace Loading

theorem makeDirectory_extends {options : LoadOptions} {t t' : Tree} {directory : Path}
    {made : Except Files.Fault Unit} (h : makeDirectory options t directory = (made, t')) :
    Tree.Extends Eq t t' := by
  unfold makeDirectory at h
  split at h
  · exact Tree.createDirectoriesFrom_extends h
  · cases h
    exact .refl (fun _ => rfl) t

variable {options options₂ : LoadOptions} {t t₁ t₂ : Tree} {file file₂ : Path} {tool : Tool}

theorem makeDirectory_again {directory : Path}
    (nonempty : directory.text.isEmpty = false) (slash : Tree.endsWithSlash directory = false)
    (wanted : options₂.createDirectories = true → options.createDirectories = true)
    (made : makeDirectory options t directory = (.ok (), t₁))
    (later : Tree.Extends Entry.SameKind t₁ t₂) :
    makeDirectory options₂ t₂ directory = (.ok (), t₂) := by
  by_cases again : options₂.createDirectories = true
  · rw [makeDirectory, if_pos (wanted again)] at made
    rw [makeDirectory, if_pos again]
    have there := Tree.createDirectoriesFrom_isDirectory nonempty slash made
    exact Tree.createDirectories_of_isDirectory nonempty slash (later.isDirectory there)
  · rw [makeDirectory, if_neg again]

/-- A valid description of the same name, for the same directory, is loaded without making
anything. -/
theorem load_again {parsed : Tool} (loaded : load options t file = (.ok tool, t₁))
    (root : options₂.outputRoot = options.outputRoot)
    (wanted : options₂.createDirectories = true → options.createDirectories = true)
    (later : Tree.Extends Entry.SameKind t₁ t₂) (valid : readValid t₂ file₂ = .ok parsed)
    (name : parsed.name = tool.name) :
    load options₂ t₂ file₂ = (.ok (parsed.placed options₂ file₂).wired, t₂) := by
  obtain ⟨first, validFirst, made, rfl⟩ := load_eq_ok.1 loaded
  obtain ⟨_, _, _, sound⟩ := readValid_eq_ok.1 validFirst
  have usable := (Tool.defect?_eq_none.1 sound).1
  obtain ⟨nonempty, slash⟩ := Tool.directory_of_nameDefect?_eq_none usable options
  have directory : parsed.directory options₂ = first.directory options := by
    have same : parsed.name = first.name := name
    rw [Tool.directory, Tool.directory, root, same]
  refine load_eq_ok.2 ⟨parsed, valid, ?_, rfl⟩
  rw [directory]
  exact makeDirectory_again nonempty slash wanted made later

theorem load_unchanged (loaded : load options t file = (.ok tool, t₁))
    (later : Tree.Extends Entry.SameKind t₁ t₂) (same : t₂.readText file = t.readText file) :
    load options t₂ file = (.ok tool, t₂) := by
  obtain ⟨parsed, valid, _, rfl⟩ := load_eq_ok.1 loaded
  have validAgain : readValid t₂ file = .ok parsed := by
    obtain ⟨text, read, parse, sound⟩ := readValid_eq_ok.1 valid
    exact readValid_eq_ok.2 ⟨text, same.trans read, parse, sound⟩
  exact load_again loaded rfl id later validAgain rfl

theorem load_replaced (loaded : load options t file = (.ok tool, t₁))
    (later : Tree.Extends Entry.SameKind t₁ t₂) (legible : tool.toJson.AllNumbers Number.Legible)
    (written : t₂.readText file = .ok tool.canonicalText) :
    load options t₂ file = (.ok tool.settableOnly.tidied, t₂) := by
  have valid := readValid_canonicalText loaded legible written
  have again := load_again loaded rfl id later valid rfl
  obtain ⟨parsed, _, _, rfl⟩ := load_eq_ok.1 loaded
  rw [again, Tool.normal_placed_wired, Tool.normal_placed_wired_eq]

theorem exists_load_replaced (loaded : load options t file = (.ok tool, t₁))
    (later : Tree.Extends Entry.SameKind t₁ t₂)
    (written : t₂.readText file = .ok tool.canonicalText) :
    ∃ again, load options t₂ file = (.ok again, t₂) := by
  obtain ⟨parsed, valid, name⟩ := exists_readValid_canonicalText loaded written
  exact ⟨_, load_again loaded rfl id later valid name⟩

theorem readText_of_load (loaded : load options t file = (.ok tool, t₁)) :
    ∃ text, t.readText file = .ok text ∧ t₁.readText file = .ok text := by
  obtain ⟨_, valid, made, _⟩ := load_eq_ok.1 loaded
  obtain ⟨text, read, _, _⟩ := readValid_eq_ok.1 valid
  exact ⟨text, read, (makeDirectory_extends made).readText read⟩

/-- The canonical text of a loaded tool is accepted wherever it is written to, whatever the options,
if only the directory of the tool can be made, as it can when it is the one made before; the tool
that is loaded from it has the same canonical text. -/
theorem load_canonicalText (loaded : load options t file = (.ok tool, t₁)) (whole : tool.Whole)
    (options₂ : LoadOptions) (written : t₂.readText file₂ = .ok tool.canonicalText) :
    ∃ again, again.canonicalText = tool.canonicalText ∧
      (load options₂ t₂ file₂ =
        match makeDirectory options₂ t₂ (tool.directory options₂) with
        | (.ok (), t₃) => (.ok again, t₃)
        | (.error fault, t₃) =>
          (.error (.load file₂ (.cannotCreate (tool.directory options₂) fault)), t₃)) ∧
      (options₂.outputRoot = options.outputRoot →
        (options₂.createDirectories = true → options.createDirectories = true) →
        Tree.Extends Entry.SameKind t₁ t₂ → load options₂ t₂ file₂ = (.ok again, t₂)) := by
  have legible := (Tool.readable whole (depth_le_of_load loaded)).legible
  have valid := readValid_canonicalText loaded legible written
  have directory : tool.normal.directory options₂ = tool.directory options₂ := rfl
  refine ⟨(tool.normal.placed options₂ file₂).wired, ?_, ?_, ?_⟩
  · rw [Tool.canonicalText_placed_wired, Tool.canonicalText_normal]
  · cases made : makeDirectory options₂ t₂ (tool.directory options₂) with
    | mk result t₃ =>
      cases result with
      | ok => simp only [load, valid, directory, made]
      | error fault => simp only [load, valid, directory, made]
  · intro root wanted later
    exact load_again loaded root wanted later valid rfl

/-- A description in the other form of records, with a read-only property and lines to spare. -/
def boxText : String :=
  "[\"demo\",\"\",null,null,null,null,[],[],[[\"Box\",null,[[\"id\",\"int\",false]]]]]\n\n\n\n\n\n\n\n"

def boxFile : Path := ⟨"demo.json"⟩

def boxTree : Files.Tree := ⟨[], [(["demo.json"], .file boxText.toUTF8)]⟩

def boxOptions : LoadOptions := ⟨⟨"out"⟩, "https://example.test", false⟩

def box : Tool where
  name := "demo"
  help := some ""
  dataClasses := [{
    name := "Box"
    properties := [{ name := "id", type := "int", settable := false }] }]

def boxLoaded : Tool := (box.placed boxOptions boxFile).wired

theorem load_box : load boxOptions boxTree boxFile = (.ok boxLoaded, boxTree) := by
  have there : boxTree.readText boxFile = .ok boxText :=
    Files.Tree.readText_eq_ok.2 ⟨["demo.json"], by rfl⟩
  have parsed : Tool.parse boxText = .ok box := by rfl
  exact load_eq_ok.2 ⟨box, readValid_eq_ok.2 ⟨boxText, there, parsed, by rfl⟩, by rfl, by rfl⟩

theorem boxLoaded_whole : boxLoaded.Whole := by
  simp [Tool.Whole, Wrapper.allProperties, boxLoaded, box, Tool.placed, Tool.wired, Whole,
    FreeValue.null]

theorem load_canonicalText_box :
    ∃ t₂ again other,
      boxTree.writeText ⟨"other.json"⟩ boxLoaded.canonicalText = .ok t₂ ∧
      again.canonicalText = boxLoaded.canonicalText ∧
      other.canonicalText = boxLoaded.canonicalText ∧
      load { boxOptions with provenanceBase := "" } t₂ ⟨"other.json"⟩ = (.ok again, t₂) ∧
      load ⟨⟨"elsewhere"⟩, "", false⟩ t₂ ⟨"other.json"⟩ = (.ok other, t₂) := by
  have written : boxTree.writeText ⟨"other.json"⟩ boxLoaded.canonicalText = .ok
      (boxTree.put ["other.json"] (.file boxLoaded.canonicalText.toUTF8)) := by rfl
  have read : (boxTree.put ["other.json"] (.file boxLoaded.canonicalText.toUTF8)).readText
      ⟨"other.json"⟩ = .ok boxLoaded.canonicalText :=
    Tree.readText_eq_ok.2 ⟨["other.json"], by rfl⟩
  obtain ⟨again, same, _, reloaded⟩ :=
    load_canonicalText load_box boxLoaded_whole { boxOptions with provenanceBase := "" } read
  obtain ⟨other, same', elsewhere, _⟩ :=
    load_canonicalText load_box boxLoaded_whole ⟨⟨"elsewhere"⟩, "", false⟩ read
  exact ⟨_, again, other, written, same, same', reloaded rfl id (Tree.writeText_extends written),
    elsewhere⟩

end Loading

end Toolwright
