import Toolwright.Proofs.Loading.Again
import Toolwright.Proofs.Wrapper.ReadOnly
import Toolwright.Proofs.Wrapper.Tidied
import Toolwright.Saving

/-!
Saving and loading again. A description is either replaced by the canonical text or stays as it is,
so what is loaded from it afterwards is told by the outcome of saving. The wrapper that is rendered
then differs from the one before only by the read-only properties, which the canonical text drops.
-/

namespace Toolwright

open Json
open Files (Entry Tree)

def Saving.Outcome.replaced (o : Outcome) : Bool := o.written && decide (o.target = .description)

namespace Loading

variable {options : LoadOptions} {t t₁ t₂ : Tree} {file : Path} {tool : Tool}

/-- The canonical text can be put in place of the description and loaded again. Whenever it is
loaded from there, the wrapper is the one of the tool without its read-only properties: everything
else that the canonical text leaves out is nothing that is rendered. -/
theorem render_canonicalText (loaded : load options t file = (.ok tool, t₁)) (whole : tool.Whole)
    (m n : Nat) :
    (∃ t₂ again, t₁.writeText file tool.canonicalText = .ok t₂ ∧
      load options t₂ file = (.ok again, t₂)) ∧
    ∀ t₂ t₃ again, t₂.readText file = .ok tool.canonicalText →
      load options t₂ file = (.ok again, t₃) →
      Renderer.wrapper.render m again = Renderer.wrapper.render n tool.settableOnly := by
  have legible := (Tool.readable whole (depth_le_of_load loaded)).legible
  constructor
  · obtain ⟨_, _, read⟩ := readText_of_load loaded
    obtain ⟨t₂, write, written⟩ := Tree.writeText_of_readText read tool.canonicalText
    have later := Tree.writeText_extends write
    exact ⟨t₂, _, write, load_replaced loaded later legible written⟩
  · intro t₂ t₃ again written reloaded
    have valid := readValid_canonicalText loaded legible written
    obtain ⟨parsed, valid', _, rfl⟩ := load_eq_ok.1 reloaded
    rw [valid] at valid'
    cases valid'
    obtain ⟨first, _, _, rfl⟩ := load_eq_ok.1 loaded
    rw [Tool.normal_placed_wired, Tool.normal_placed_wired_eq]
    exact Wrapper.render_tidied _ m n

theorem render_canonicalText_box :
    ∃ t₂ again, boxTree.writeText boxFile boxLoaded.canonicalText = .ok t₂ ∧
      load boxOptions t₂ boxFile = (.ok again, t₂) ∧
      Renderer.wrapper.render 1 again = Renderer.wrapper.render 0 boxLoaded.settableOnly := by
  obtain ⟨⟨t₂, again, write, reloaded⟩, rendered⟩ :=
    render_canonicalText load_box boxLoaded_whole 1 0
  obtain ⟨_, _, read⟩ := readText_of_load load_box
  obtain ⟨t₃, write', holds⟩ := Tree.writeText_of_readText read boxLoaded.canonicalText
  have same : t₃ = t₂ := Except.ok.inj (write'.symm.trans write)
  subst same
  exact ⟨t₃, again, write, reloaded, rendered t₃ t₃ again holds reloaded⟩

end Loading

namespace Saving

theorem writeBack_eq_ok {t t' : Tree} {file : Path} {fresh : String} {dryRun : Bool}
    {outcome : Outcome} (h : writeBack t file fresh dryRun = (.ok outcome, t')) :
    ∃ old, t.readText file = .ok old ∧ outcome.target = target old fresh ∧
      ((outcome.written = false ∧ t' = t) ∨
        (outcome.written = true ∧ dryRun = false ∧
          t.writeText (destination file outcome.target) fresh = .ok t')) := by
  unfold writeBack at h
  split at h
  · cases h
  · rename_i old read
    dsimp only at h
    split at h
    · cases h
      exact ⟨old, read, rfl, .inl ⟨rfl, rfl⟩⟩
    · rename_i needed
      split at h
      · cases h
      · rename_i write
        cases h
        refine ⟨old, read, rfl, .inr ⟨rfl, ?_, write⟩⟩
        simpa using fun dry => needed (.inl dry)

theorem readText_of_save {t t' : Tree} {tool : Tool} {dryRun : Bool} {outcome : Outcome}
    (h : save t tool dryRun = (.ok outcome, t')) :
    Tree.Extends Entry.SameKind t t' ∧
      t'.readText tool.definitionFile =
        if outcome.replaced then .ok tool.canonicalText else t.readText tool.definitionFile := by
  obtain ⟨old, read, _, ⟨unwritten, rfl⟩ | ⟨written, _, write⟩⟩ := writeBack_eq_ok h
  · exact ⟨.refl (R := Entry.SameKind) (fun _ => rfl) t', by simp [Outcome.replaced, unwritten]⟩
  · refine ⟨Tree.writeText_extends write, ?_⟩
    cases target : outcome.target with
    | description =>
      rw [target] at write
      obtain ⟨t₂, write₂, holds⟩ := Tree.writeText_of_readText read tool.canonicalText
      have same : t₂ = t' := by
        have both := write₂.symm.trans write
        cases both
        rfl
      subst same
      simpa [Outcome.replaced, written, target] using holds
    | sibling =>
      rw [target] at write
      have kept := Tree.readText_of_writeText_extend read (by decide) (by rfl) write
      simpa [Outcome.replaced, written, target, read] using kept

/-- Loading the description again after saving succeeds. The wrapper is that of the tool without
its read-only properties if the description was replaced, and the same as before otherwise; so it
changes exactly when a replaced description had read-only properties. What is said of the wrapper
needs the numbers of a canonical text that replaced the description to be read back as they were
written. -/
theorem render_of_save {options : LoadOptions} {t t₁ t₂ : Tree} {file : Path} {tool : Tool}
    {outcome : Outcome} (loaded : Loading.load options t file = (.ok tool, t₁))
    (saved : save t₁ tool false = (.ok outcome, t₂)) (m n : Nat) :
    ∃ again, Loading.load options t₂ file = (.ok again, t₂) ∧
      ((outcome.replaced = true → tool.toJson.AllNumbers Number.Legible) →
        Renderer.wrapper.render m again =
          Renderer.wrapper.render n (if outcome.replaced then tool.settableOnly else tool) ∧
        (Renderer.wrapper.render m again = Renderer.wrapper.render n tool ↔
          (outcome.replaced = true → ∀ p ∈ Wrapper.allProperties tool, p.settable = true))) := by
  obtain ⟨later, holds⟩ := readText_of_save saved
  have place : tool.definitionFile = file := by
    obtain ⟨_, _, _, rfl⟩ := Loading.load_eq_ok.1 loaded
    rfl
  rw [place] at holds
  cases replaced : outcome.replaced with
  | true =>
    rw [if_pos replaced] at holds
    obtain ⟨again, reloaded⟩ := Loading.exists_load_replaced loaded later holds
    refine ⟨again, reloaded, fun legible => ?_⟩
    -- with legible numbers it is known which tool was loaded
    have known := Loading.load_replaced loaded later (legible rfl) holds
    cases known.symm.trans reloaded
    refine ⟨Wrapper.render_tidied _ m n, ?_⟩
    rw [Wrapper.render_tidied _ m n, Wrapper.render_settableOnly]
    simp
  | false =>
    have unreplaced : ¬ outcome.replaced = true := by simp [replaced]
    rw [if_neg unreplaced] at holds
    obtain ⟨text, read, stays⟩ := Loading.readText_of_load loaded
    have same : t₂.readText file = t.readText file := by rw [holds, stays, read]
    refine ⟨tool, Loading.load_unchanged loaded later same, fun _ => ⟨rfl, ?_⟩⟩
    exact ⟨fun _ => nofun, fun _ => rfl⟩

/-- The description is replaced, both texts having eight lines. -/
def boxSaved : Tree :=
  Loading.boxTree.put ["demo.json"] (.file Loading.boxLoaded.canonicalText.toUTF8)

theorem save_box : save Loading.boxTree Loading.boxLoaded false =
    (.ok ⟨.description, Loading.boxFile, true, 8, 8⟩, boxSaved) := by rfl

theorem boxLoaded_legible : Loading.boxLoaded.toJson.AllNumbers Number.Legible :=
  (Tool.readable Loading.boxLoaded_whole (Loading.depth_le_of_load Loading.load_box)).legible

theorem render_of_save_box :
    ∃ again, Loading.load Loading.boxOptions boxSaved Loading.boxFile = (.ok again, boxSaved) ∧
      Renderer.wrapper.render 1 again =
        Renderer.wrapper.render 0 Loading.boxLoaded.settableOnly := by
  obtain ⟨again, reloaded, rendered⟩ := render_of_save Loading.load_box save_box 1 0
  exact ⟨again, reloaded, (rendered fun _ => boxLoaded_legible).1⟩

/-- Loading, rendering and saving a description may change what is rendered next: a read-only
property is in the first wrapper and, the description being replaced, not in the second. -/
theorem wrapper_changes :
    ¬ ∀ (options : LoadOptions) (t t₁ t₂ : Tree) (file : Path) (tool : Tool) (outcome : Outcome),
      Loading.load options t file = (.ok tool, t₁) → save t₁ tool false = (.ok outcome, t₂) →
      ∃ again t₃, Loading.load options t₂ file = (.ok again, t₃) ∧
        Renderer.wrapper.render 1 again = Renderer.wrapper.render 0 tool := by
  intro stable
  obtain ⟨again, t₃, reloaded, same⟩ := stable _ _ _ _ _ _ _ Loading.load_box save_box
  obtain ⟨later, holds⟩ := readText_of_save save_box
  have replaced := Loading.load_replaced Loading.load_box later boxLoaded_legible holds
  cases replaced.symm.trans reloaded
  rw [Wrapper.render_tidied _ 1 1, Wrapper.render_settableOnly] at same
  have settable := same { name := "id", type := "int", settable := false } (by
    simp [Wrapper.allProperties, Loading.boxLoaded, Loading.box, Tool.placed, Tool.wired])
  cases settable

end Saving

end Toolwright
