import Toolwright.Proofs.Description.Depth
import Toolwright.Proofs.Files.Write
import Toolwright.Proofs.Loading.Defect

/-!
Loading a canonical text. What loading adds to a description is not in its canonical text, so a
canonical text that is read again, from wherever it stands, is valid, and what it says is the normal
form of the tool, if its numbers are read as they were written.
-/

namespace Toolwright

open Json

theorem map_mapIdx {α β γ : Type} {f : Nat → α → β} {g : β → γ} {h : α → γ}
    (same : ∀ i x, g (f i x) = h x) (xs : List α) : (xs.mapIdx f).map g = xs.map h := by
  refine List.ext_getElem (by simp) fun i _ _ => ?_
  simp only [List.getElem_map, List.getElem_mapIdx, same]

namespace Tool

theorem toJson_placed_wired (t : Tool) (options : LoadOptions) (file : Path) :
    (t.placed options file).wired.toJson = t.toJson := by
  have tasks : ∀ name, (t.tasks.mapIdx (wiredTask name)).map Task.toJson =
      t.tasks.map Task.toJson :=
    fun name => map_mapIdx (f := wiredTask name) (fun _ _ => rfl) t.tasks
  simp only [toJson, placed, wired, tasks, List.map_map]
  rfl

theorem canonicalText_placed_wired (t : Tool) (options : LoadOptions) (file : Path) :
    (t.placed options file).wired.canonicalText = t.canonicalText := by
  rw [canonicalText, canonicalText, toJson_placed_wired]

theorem canonicalText_normal (t : Tool) : t.normal.canonicalText = t.canonicalText := by
  rw [canonicalText, canonicalText, toJson_normal]

theorem normal_placed_wired (t : Tool) (options : LoadOptions) (file : Path) :
    (t.placed options file).wired.normal = t.normal := by
  have tasks : ∀ name, (t.tasks.mapIdx (wiredTask name)).map Task.normal =
      t.tasks.map Task.normal :=
    fun name => map_mapIdx (f := wiredTask name) (fun _ _ => rfl) t.tasks
  simp only [normal_parts, placed, wired, tasks, List.map_map]
  rfl

theorem exists_sound_of_canonicalText {text : String} {t : Tool} (parse : Tool.parse text = .ok t)
    (sound : t.defect? = none) :
    ∃ again, Tool.parse t.canonicalText = .ok again ∧ again.defect? = none ∧
      again.name = t.name := by
  obtain ⟨ρ, parsed⟩ := exists_parse_canonicalText parse
  refine ⟨t.normal.mapNumbers ρ, parsed, ?_, rfl⟩
  rw [defect?_mapNumbers]
  exact defect?_normal sound

end Tool

namespace Loading

theorem readValid_eq_ok {t : Files.Tree} {file : Path} {parsed : Tool} :
    readValid t file = .ok parsed ↔
      ∃ text, t.readText file = .ok text ∧ Tool.parse text = .ok parsed ∧
      parsed.defect? = none := by
  constructor
  · intro h
    unfold readValid at h
    split at h
    · cases h
    · rename_i text read
      split at h
      · cases h
      · rename_i tool parse
        split at h
        · cases h
        · rename_i sound
          cases h
          exact ⟨text, read, parse, sound⟩
  · rintro ⟨text, read, parse, sound⟩
    simp only [readValid, read, parse, sound]

theorem load_eq_ok {options : LoadOptions} {t t₁ : Files.Tree} {file : Path} {tool : Tool} :
    load options t file = (.ok tool, t₁) ↔
      ∃ parsed, readValid t file = .ok parsed ∧
        makeDirectory options t (parsed.directory options) = (.ok (), t₁) ∧
        tool = (parsed.placed options file).wired := by
  constructor
  · intro h
    unfold load at h
    split at h
    · cases h
    · rename_i parsed valid
      simp only at h
      split at h
      · cases h
      · rename_i made
        cases h
        exact ⟨parsed, valid, made, rfl⟩
  · rintro ⟨parsed, valid, made, rfl⟩
    simp only [load, valid, made]

theorem readValid_of_load {options : LoadOptions} {t t₁ : Files.Tree} {file : Path} {tool : Tool}
    (h : load options t file = (.ok tool, t₁)) :
    ∃ parsed text, Tool.parse text = .ok parsed ∧ parsed.defect? = none ∧
      tool = (parsed.placed options file).wired := by
  obtain ⟨parsed, valid, _, rfl⟩ := load_eq_ok.1 h
  obtain ⟨text, _, parse, sound⟩ := readValid_eq_ok.1 valid
  exact ⟨parsed, text, parse, sound, rfl⟩

theorem depth_le_of_load {options : LoadOptions} {t t₁ : Files.Tree} {file : Path} {tool : Tool}
    (h : load options t file = (.ok tool, t₁)) : tool.toJson.depth ≤ Reader.nestingLimit := by
  obtain ⟨parsed, text, parse, _, rfl⟩ := readValid_of_load h
  rw [Tool.toJson_placed_wired]
  exact Tool.depth_le_of_parse parse

/-- A description that holds the canonical text of a loaded tool is valid, and it is read as the
normal form of the tool. -/
theorem readValid_canonicalText {options : LoadOptions} {t t₁ t₂ : Files.Tree} {file file₂ : Path}
    {tool : Tool} (loaded : load options t file = (.ok tool, t₁))
    (legible : tool.toJson.AllNumbers Number.Legible)
    (written : t₂.readText file₂ = .ok tool.canonicalText) :
    readValid t₂ file₂ = .ok tool.normal := by
  have depth_le := depth_le_of_load loaded
  obtain ⟨parsed, text, _, sound, rfl⟩ := readValid_of_load loaded
  refine readValid_eq_ok.2 ⟨_, written, Tool.parse_readable ⟨legible, depth_le⟩, ?_⟩
  rw [Tool.normal_placed_wired]
  exact Tool.defect?_normal sound

theorem exists_readValid_canonicalText {options : LoadOptions} {t t₁ t₂ : Files.Tree}
    {file file₂ : Path} {tool : Tool} (loaded : load options t file = (.ok tool, t₁))
    (written : t₂.readText file₂ = .ok tool.canonicalText) :
    ∃ again, readValid t₂ file₂ = .ok again ∧ again.name = tool.name := by
  obtain ⟨parsed, text, parse, sound, rfl⟩ := readValid_of_load loaded
  obtain ⟨again, parse', sound', name⟩ := Tool.exists_sound_of_canonicalText parse sound
  rw [Tool.canonicalText_placed_wired] at written
  exact ⟨again, readValid_eq_ok.2 ⟨_, written, parse', sound'⟩, name⟩

end Loading

end Toolwright
