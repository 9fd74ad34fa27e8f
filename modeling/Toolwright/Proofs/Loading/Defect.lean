import Toolwright.Loading
import Toolwright.Proofs.Description.Numbers

/-!
Descriptions without defects. A list without a repeated member is one without duplicates, so a tool
has no defect exactly when its name is usable and names and values are distinct where they must be.
What the normal form leaves out cannot bring a defect about, and neither can other numbers.
-/

namespace Toolwright

theorem repeatedAfter?_eq_none {seen xs : List String} :
    repeatedAfter? seen xs = none ↔ xs.Nodup ∧ ∀ x ∈ xs, x ∉ seen := by
  induction xs generalizing seen with
  | nil => simp [repeatedAfter?]
  | cons x rest ih =>
    unfold repeatedAfter?
    by_cases known : x ∈ seen
    · simp [known]
    · rw [if_neg (by simpa using known), ih]
      rw [List.nodup_cons, List.forall_mem_cons]
      simp only [List.mem_cons, not_or]
      constructor
      · rintro ⟨distinct, fresh⟩
        exact ⟨⟨fun hx => (fresh x hx).1 rfl, distinct⟩, known, fun y hy => (fresh y hy).2⟩
      · rintro ⟨⟨new, distinct⟩, _, fresh⟩
        exact ⟨distinct, fun y hy => ⟨fun same => new (same ▸ hy), fresh y hy⟩⟩

theorem repeated?_eq_none {xs : List String} : repeated? xs = none ↔ xs.Nodup := by
  rw [repeated?, repeatedAfter?_eq_none]
  simp

theorem repeatedProperty?_eq_none {owner : String} {properties : List Property} :
    repeatedProperty? owner properties = none ↔ (properties.map (·.name)).Nodup := by
  rw [repeatedProperty?, Option.map_eq_none_iff, repeated?_eq_none]

namespace Tool

theorem defect?_eq_none {t : Tool} :
    t.defect? = none ↔ t.nameDefect? = none ∧
      (∀ task ∈ t.tasks, (task.settings.properties.map (·.name)).Nodup) ∧
      (∀ d ∈ t.dataClasses, (d.properties.map (·.name)).Nodup) ∧
      ∀ e ∈ t.enumerations, e.values.Nodup := by
  simp only [defect?, Option.or_eq_none_iff, List.findSome?_eq_none_iff, taskDefect?, dataDefect?,
    enumerationDefect?, Option.map_eq_none_iff, repeatedProperty?_eq_none, repeated?_eq_none]

theorem nodup_settable {properties : List Property} (h : (properties.map (·.name)).Nodup) :
    (((properties.filter (·.settable)).map Property.tidied).map (·.name)).Nodup := by
  have names : (fun p : Property => p.name) ∘ Property.tidied = (·.name) := rfl
  rw [List.map_map, names]
  exact h.sublist ((List.filter_sublist (l := properties)).map _)

theorem defect?_normal {t : Tool} (h : t.defect? = none) : t.normal.defect? = none := by
  obtain ⟨name, tasks, dataClasses, enumerations⟩ := defect?_eq_none.1 h
  rw [normal_parts, defect?_eq_none]
  refine ⟨name, ?_, ?_, ?_⟩
  · intro task ht
    obtain ⟨source, hs, rfl⟩ := List.mem_map.1 ht
    exact nodup_settable (tasks source hs)
  · intro d hd
    obtain ⟨source, hs, rfl⟩ := List.mem_map.1 hd
    exact nodup_settable (dataClasses source hs)
  · intro e he
    obtain ⟨source, hs, rfl⟩ := List.mem_map.1 he
    exact enumerations source hs

theorem defect?_mapNumbers (ρ : Json.Number → Json.Number) (t : Tool) :
    (t.mapNumbers ρ).defect? = t.defect? := by
  have properties : ∀ owner (ps : List Property),
      repeatedProperty? owner (ps.map (Property.mapNumbers ρ)) = repeatedProperty? owner ps := by
    intro owner ps
    rw [repeatedProperty?, List.map_map]
    rfl
  have tasks : taskDefect? (t.mapNumbers ρ) ∘ Task.mapNumbers ρ = taskDefect? t :=
    funext fun task => properties _ task.settings.properties
  have data : dataDefect? ∘ DataClass.mapNumbers ρ = dataDefect? :=
    funext fun d => properties _ d.properties
  have name : (t.mapNumbers ρ).nameDefect? = t.nameDefect? := rfl
  rw [defect?, name]
  simp only [mapNumbers, List.findSome?_map] at tasks ⊢
  rw [tasks, data]
  rfl

end Tool

end Toolwright
