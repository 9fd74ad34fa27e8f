import Toolwright.Proofs.Description.RoundTrip
import Toolwright.Proofs.Json.Gives

/-!
The depth of descriptions that were read, and their numbers. The canonical tree of an entity is no
deeper than its reader allows, in whichever form the entity was written: each record and each list
takes one bracket in both. Its numbers are those of the defaults that were read, which are finite.
So the canonical text of a tool that was parsed can be parsed again.
-/

namespace Toolwright

open Json

@[simp] theorem Json.within_ofText? {P : Number → Prop} {limit : Nat} (text : Option String) :
    (ofText? text).Within P limit := by
  cases text <;> simp [ofText?]

theorem within_array_map {α : Type} {tree : α → Json} {limit : Nat} {xs : List α}
    (h : ∃ inner, limit = inner + 1 ∧ ∀ x ∈ xs, (tree x).Within Number.IsFinite inner) :
    (array (xs.map tree)).Within Number.IsFinite limit := by
  obtain ⟨inner, rfl, each⟩ := h
  refine within_array.2 fun item hi => ?_
  obtain ⟨x, hx, rfl⟩ := List.mem_map.1 hi
  exact each x hx

theorem within_propertiesJson {limit : Nat} {properties : List Property}
    (h : ∃ inner, limit = inner + 1 ∧ ∀ p ∈ properties, p.toJson.Within Number.IsFinite inner) :
    (propertiesJson properties).Within Number.IsFinite limit := by
  obtain ⟨inner, rfl, each⟩ := h
  exact within_array_map ⟨inner, rfl, fun p hp => each p (List.mem_filter.1 hp).1⟩

theorem within_getD {α : Type} {tree : List α → Json} {limit : Nat} {xs? : Option (List α)}
    (hnil : (tree []).isZero = true)
    (h : ∀ xs, xs? = some xs → (tree xs).Within Number.IsFinite limit) :
    (tree (xs?.getD [])).isZero = false → (tree (xs?.getD [])).Within Number.IsFinite limit := by
  intro present
  cases xs? with
  | none => simp [hnil] at present
  | some xs => exact h xs rfl

def Property.Draft.Within (depth : Nat) (r : Draft) : Prop :=
  ∀ v, r.default = some v → v.tree.Within Number.IsFinite depth

theorem Property.gives_read (limit : Nat) :
    Gives (Property.read limit) fun p => p.toJson.Within Number.IsFinite limit := by
  have blank : ∀ depth, Draft.Within depth form.blank := fun _ _ h => nomatch h
  refine Form.gives_record (P := fun limit p => p.toJson.Within Number.IsFinite limit) blank ?_ ?_
    limit
  · intro depth
    simp only [form, List.forall_mem_cons]
    refine ⟨fun r h => ?_, fun r h => ?_, fun r h => ?_, fun r h => ?_, fun r h => ?_,
      fun r h => ?_, fun r h => ?_, List.forall_mem_nil _⟩
    · exact gives_memberOf .any fun _ _ => h
    · exact gives_memberOf .any fun _ _ => h
    · exact gives_memberOf .any fun _ _ => h
    · exact gives_memberOf (gives_value depth) fun v hv w hw => by cases hw; exact hv
    · exact gives_memberOf .any fun _ _ => h
    · exact gives_memberOf .any fun _ _ => h
    · exact gives_memberOf .any fun _ _ => h
  · intro depth r p h complete
    obtain ⟨name, _, complete⟩ := Option.bind_eq_some_iff.1 complete
    obtain ⟨type, _, complete⟩ := Option.bind_eq_some_iff.1 complete
    cases complete
    have default : (r.default.getD .null).tree.Within Number.IsFinite depth := by
      cases given : r.default with
      | none => exact within_null
      | some v => exact h v given
    rw [toJson, within_object]
    simp only [List.forall_mem_append, List.forall_mem_cons, forall_mem_optionalMember]
    simp [default]

def SettingsClass.Draft.Within (depth : Nat) (r : Draft) : Prop :=
  ∀ ps, r.properties = some ps → (propertiesJson ps).Within Number.IsFinite depth

theorem SettingsClass.gives_read (limit : Nat) :
    Gives (SettingsClass.read limit) fun c => c.toJson.Within Number.IsFinite limit := by
  have blank : ∀ depth, Draft.Within depth form.blank := fun _ _ h => nomatch h
  refine Form.gives_record (P := fun limit c => c.toJson.Within Number.IsFinite limit) blank ?_ ?_
    limit
  · intro depth
    simp only [form, List.forall_mem_cons]
    refine ⟨fun r h => ?_, fun r h => ?_, fun r h => ?_, List.forall_mem_nil _⟩
    · exact gives_memberOf .any fun _ _ => h
    · exact gives_memberOf .any fun _ _ => h
    · exact gives_memberOf (Gives.list Property.gives_read depth) fun ps hps qs hqs => by
        cases hqs
        exact within_propertiesJson hps
  · intro depth r c h complete
    cases complete
    have properties := within_getD rfl h
    rw [toJson, within_object]
    simp only [List.forall_mem_append, forall_mem_optionalMember]
    exact ⟨by simp, properties⟩

def Task.Draft.Within (depth : Nat) (r : Draft) : Prop :=
  ∀ c, r.settings = some c → c.toJson.Within Number.IsFinite depth

theorem Task.gives_read (limit : Nat) :
    Gives (Task.read limit) fun t => t.toJson.Within Number.IsFinite limit := by
  have blank : ∀ depth, Draft.Within depth form.blank := fun _ _ h => nomatch h
  refine Form.gives_record (P := fun limit t => t.toJson.Within Number.IsFinite limit) blank ?_ ?_
    limit
  · intro depth
    simp only [form, List.forall_mem_cons]
    refine ⟨fun r h => ?_, fun r h => ?_, fun r h => ?_, fun r h => ?_, List.forall_mem_nil _⟩
    · exact gives_memberOf .any fun _ _ => h
    · exact gives_memberOf .any fun _ _ => h
    · exact gives_memberOf .any fun _ _ => h
    · exact gives_memberOf (SettingsClass.gives_read depth) fun c hc d hd => by cases hd; exact hc
  · intro depth r t h complete
    obtain ⟨settings, given, complete⟩ := Option.bind_eq_some_iff.1 complete
    cases complete
    have settings_le := h settings given
    rw [toJson, within_object]
    simp only [List.forall_mem_append, List.forall_mem_cons, forall_mem_optionalMember]
    simp [settings_le]

def DataClass.Draft.Within (depth : Nat) (r : Draft) : Prop :=
  ∀ ps, r.properties = some ps → (propertiesJson ps).Within Number.IsFinite depth

theorem DataClass.gives_read (limit : Nat) :
    Gives (DataClass.read limit) fun d => d.toJson.Within Number.IsFinite limit := by
  have blank : ∀ depth, Draft.Within depth form.blank := fun _ _ h => nomatch h
  refine Form.gives_record (P := fun limit d => d.toJson.Within Number.IsFinite limit) blank ?_ ?_
    limit
  · intro depth
    simp only [form, List.forall_mem_cons]
    refine ⟨fun r h => ?_, fun r h => ?_, fun r h => ?_, List.forall_mem_nil _⟩
    · exact gives_memberOf .any fun _ _ => h
    · exact gives_memberOf .any fun _ _ => h
    · exact gives_memberOf (Gives.list Property.gives_read depth) fun ps hps qs hqs => by
        cases hqs
        exact within_propertiesJson hps
  · intro depth r d h complete
    obtain ⟨name, _, complete⟩ := Option.bind_eq_some_iff.1 complete
    cases complete
    have properties := within_getD rfl h
    rw [toJson, within_object]
    simp only [List.forall_mem_append, List.forall_mem_cons, forall_mem_optionalMember]
    exact ⟨by simp, properties⟩

def Enumeration.Draft.Within (depth : Nat) (r : Draft) : Prop :=
  ∀ values, r.values = some values → (array (values.map .string)).Within Number.IsFinite depth

theorem Enumeration.gives_read (limit : Nat) :
    Gives (Enumeration.read limit) fun e => e.toJson.Within Number.IsFinite limit := by
  have blank : ∀ depth, Draft.Within depth form.blank := fun _ _ h => nomatch h
  have strings : ∀ limit : Nat, Gives ((fun _ => Reader.string : Nat → Reader String) limit)
      fun s => (string s).Within Number.IsFinite limit :=
    fun _ => Gives.any.mono fun s _ => within_string s
  refine Form.gives_record (P := fun limit e => e.toJson.Within Number.IsFinite limit) blank ?_ ?_
    limit
  · intro depth
    simp only [form, List.forall_mem_cons]
    refine ⟨fun r h => ?_, fun r h => ?_, fun r h => ?_, List.forall_mem_nil _⟩
    · exact gives_memberOf .any fun _ _ => h
    · exact gives_memberOf .any fun _ _ => h
    · exact gives_memberOf (Gives.list strings depth) fun values h others ho => by
        cases ho
        exact within_array_map h
  · intro depth r e h complete
    obtain ⟨name, _, complete⟩ := Option.bind_eq_some_iff.1 complete
    cases complete
    have values := within_getD rfl h
    rw [toJson, within_object]
    simp only [List.forall_mem_append, List.forall_mem_cons, forall_mem_optionalMember]
    exact ⟨by simp, values⟩

structure Tool.Draft.Within (depth : Nat) (r : Draft) : Prop where
  references : ∀ xs, r.references = some xs →
    (array (xs.map Reference.toJson)).Within Number.IsFinite depth
  tasks : ∀ xs, r.tasks = some xs → (array (xs.map Task.toJson)).Within Number.IsFinite depth
  dataClasses : ∀ xs, r.dataClasses = some xs →
    (array (xs.map DataClass.toJson)).Within Number.IsFinite depth
  enumerations : ∀ xs, r.enumerations = some xs →
    (array (xs.map Enumeration.toJson)).Within Number.IsFinite depth

theorem Tool.gives_read (limit : Nat) :
    Gives (Tool.read limit) fun t => t.toJson.Within Number.IsFinite limit := by
  have blank : ∀ depth, Draft.Within depth form.blank := fun _ =>
    ⟨by simp [form], by simp [form], by simp [form], by simp [form]⟩
  have references : ∀ limit,
      Gives (Reference.read limit) fun r => r.toJson.Within Number.IsFinite limit := fun _ =>
    Gives.any.mono fun r _ => within_string r.text
  refine Form.gives_record (P := fun limit t => t.toJson.Within Number.IsFinite limit) blank ?_ ?_
    limit
  · intro depth
    simp only [form, List.forall_mem_cons]
    refine ⟨fun r h => ?_, fun r h => ?_, fun r h => ?_, fun r h => ?_, fun r h => ?_,
      fun r h => ?_, fun r h => ?_, fun r h => ?_, fun r h => ?_, fun r h => ?_,
      List.forall_mem_nil _⟩
    · exact gives_memberOf .any fun _ _ => ⟨h.1, h.2, h.3, h.4⟩
    · exact gives_memberOf .any fun _ _ => ⟨h.1, h.2, h.3, h.4⟩
    · exact gives_memberOf .any fun _ _ => ⟨h.1, h.2, h.3, h.4⟩
    · exact gives_memberOf .any fun _ _ => ⟨h.1, h.2, h.3, h.4⟩
    · exact gives_memberOf .any fun _ _ => ⟨h.1, h.2, h.3, h.4⟩
    · exact gives_memberOf .any fun _ _ => ⟨h.1, h.2, h.3, h.4⟩
    · refine gives_memberOf (Gives.list references depth) fun xs hxs =>
        ⟨fun ys hys => ?_, h.2, h.3, h.4⟩
      cases hys
      exact within_array_map hxs
    · refine gives_memberOf (Gives.list Task.gives_read depth) fun xs hxs =>
        ⟨h.1, fun ys hys => ?_, h.3, h.4⟩
      cases hys
      exact within_array_map hxs
    · refine gives_memberOf (Gives.list DataClass.gives_read depth) fun xs hxs =>
        ⟨h.1, h.2, fun ys hys => ?_, h.4⟩
      cases hys
      exact within_array_map hxs
    · refine gives_memberOf (Gives.list Enumeration.gives_read depth) fun xs hxs =>
        ⟨h.1, h.2, h.3, fun ys hys => ?_⟩
      cases hys
      exact within_array_map hxs
  · intro depth r t h complete
    obtain ⟨name, _, complete⟩ := Option.bind_eq_some_iff.1 complete
    cases complete
    have references := within_getD rfl h.references
    have tasks := within_getD rfl h.tasks
    have dataClasses := within_getD rfl h.dataClasses
    have enumerations := within_getD rfl h.enumerations
    rw [toJson, within_object]
    simp only [List.forall_mem_append, List.forall_mem_cons, forall_mem_optionalMember]
    exact ⟨⟨⟨⟨by simp, references⟩, tasks⟩, dataClasses⟩, enumerations⟩

theorem Tool.within_of_parse {text : String} {t : Tool} (h : Tool.parse text = .ok t) :
    t.toJson.Within Number.IsFinite Reader.nestingLimit :=
  (gives_read Reader.nestingLimit).of_readAll h

theorem Tool.depth_le_of_parse {text : String} {t : Tool} (h : Tool.parse text = .ok t) :
    t.toJson.depth ≤ Reader.nestingLimit :=
  (within_of_parse h).depth_le

/-- The canonical text of a parsed tool is parsed as its normal form, though maybe with other
numbers. -/
theorem Tool.exists_parse_canonicalText {text : String} {t : Tool} (h : Tool.parse text = .ok t) :
    ∃ ρ, Tool.parse t.canonicalText = .ok (t.normal.mapNumbers ρ) := by
  obtain ⟨ρ, readable⟩ := (within_of_parse h).exists_readableAs
  exact ⟨ρ, parse_readableAs readable⟩

end Toolwright
