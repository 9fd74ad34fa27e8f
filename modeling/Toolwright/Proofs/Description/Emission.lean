import Toolwright.Proofs.Description.Depth
import Toolwright.Proofs.Description.Site

/-!
What is written of a tool, and that none of it could be left out. The objects of the canonical tree
that are not inside a default are those of the entities at its sites. Each has its members in one
order, the optional ones where their value says something; and a tool with one member less is read
as another tool.
-/

namespace Toolwright

open Json

inductive Json.Zero : Json → Prop
  | null : Zero .null
  | false : Zero (.bool false)
  | natural : Zero (.number (.natural 0))
  | real {x : Float} (zero : (x == 0.0) = true) : Zero (.number (.real x))
  | string : Zero (.string "")
  | array : Zero (.array [])
  | object : Zero (.object [])

theorem Json.isZero_iff {tree : Json} : tree.isZero = true ↔ tree.Zero := by
  constructor
  · intro h
    match tree, h with
    | .null, _ => exact .null
    | .bool false, _ => exact .false
    | .number (.natural n), h =>
      obtain rfl : n = 0 := eq_of_beq h
      exact .natural
    | .number (.real x), h => exact .real h
    | .string s, h =>
      obtain rfl : s = "" := String.isEmpty_iff.1 h
      exact .string
    | .array [], _ => exact .array
    | .object [], _ => exact .object
  · rintro (_ | _ | _ | zero | _ | _ | _)
    all_goals first | rfl | exact zero

theorem zero_propertiesJson {properties : List Property} :
    (propertiesJson properties).Zero ↔ ∀ p ∈ properties, p.settable = false := by
  rw [← Json.isZero_iff, propertiesJson, isZero_array_map, List.isEmpty_iff, List.filter_eq_nil_iff]
  exact forall₂_congr fun p _ => by rw [Property.isEmitted, Bool.not_eq_true]

/-- The members are those of the entity: in the order of their keys, each once and with its value,
the required ones always and the others when their value says something. -/
structure EntityKind.Emits (k : EntityKind) (e : k.Entity) (members : List (String × Json)) :
    Prop where
  ordered : (members.map (·.1)).Sublist k.keys
  once : (members.map (·.1)).Nodup
  value : ∀ m ∈ members, ∃ s ∈ k.slots, m = (s.key, s.value e)
  required : ∀ s ∈ k.slots, s.required = true → s.key ∈ members.map (·.1)
  optional : ∀ s ∈ k.slots, s.required = false →
    (s.key ∈ members.map (·.1) ↔ ¬ (s.value e).Zero)

theorem EntityKind.emits_written (k : EntityKind) (e : k.Entity) :
    k.Emits e (Slot.written k.slots e) := by
  have keys : (Slot.written k.slots e).map (·.1) = (k.slots.filter (·.isWritten e)).map (·.key) :=
    List.map_map
  have sublist : ((Slot.written k.slots e).map (·.1)).Sublist k.keys := by
    rw [keys, ← map_key_slots]
    exact List.Sublist.map _ List.filter_sublist
  have mem_iff : ∀ s ∈ k.slots, (s.key ∈ (Slot.written k.slots e).map (·.1) ↔
      s.isWritten e = true) := by
    intro s hs
    rw [keys, List.mem_map]
    constructor
    · rintro ⟨other, ho, same⟩
      obtain ⟨among, written⟩ := List.mem_filter.1 ho
      rwa [← eq_of_key hs among same]
    · exact fun written => ⟨s, List.mem_filter.2 ⟨hs, written⟩, rfl⟩
  refine ⟨sublist, sublist.nodup (nodup_keys k), fun m hm => ?_, fun s hs required => ?_,
    fun s hs optional => ?_⟩
  · obtain ⟨s, hs, rfl⟩ := List.mem_map.1 hm
    exact ⟨s, (List.mem_filter.1 hs).1, rfl⟩
  · rw [mem_iff s hs, Slot.isWritten, required, Bool.true_or]
  · rw [mem_iff s hs, Slot.isWritten, optional, Bool.false_or, ← Json.isZero_iff, Bool.not_eq_true,
      Bool.not_eq_true']

theorem Json.step?_scalar {tree : Json} (scalar : tree.depth = 0) (step : Step) :
    tree.step? step = none := by
  cases tree with
  | array items => cases scalar
  | object members => cases scalar
  | _ => cases step <;> rfl

theorem Json.at?_scalar {tree : Json} (scalar : tree.depth = 0) {p : Pointer}
    {members : List (String × Json)} : at? p tree ≠ some (.object members) := by
  intro found
  cases p with
  | nil =>
    cases found
    cases scalar
  | cons step p =>
    rw [at?, step?_scalar scalar] at found
    cases found

theorem Json.at?_items {α : Type} {f : α → Json} {xs : List α} {p : Pointer}
    {members : List (String × Json)} (found : at? p (.array (xs.map f)) = some (.object members)) :
    ∃ index x rest, p = .item index :: rest ∧ xs[index]? = some x ∧
      at? rest (f x) = some (.object members) := by
  cases p with
  | nil => cases found
  | cons step rest =>
    cases step with
    | member key => cases found
    | item index =>
      obtain ⟨tree, there, found⟩ := Option.bind_eq_some_iff.1 found
      obtain ⟨x, hx, rfl⟩ := Option.map_eq_some_iff.1 (List.getElem?_map.symm.trans there)
      exact ⟨index, x, rest, rfl, hx, found⟩

theorem Json.at?_texts {α : Type} {f : α → String} {xs : List α} {p : Pointer}
    {members : List (String × Json)} :
    at? p (.array (xs.map fun x => .string (f x))) ≠ some (.object members) := by
  intro found
  obtain ⟨index, x, rest, -, -, found⟩ := at?_items found
  exact at?_scalar rfl found

theorem EntityKind.exists_edge {k : EntityKind} (e : k.Entity) {p : Pointer}
    {members : List (String × Json)} :
    ∀ s ∈ k.slots, s.key ≠ "Default" → at? p (s.value e) = some (.object members) →
      ∃ (l : EntityKind) (edge : Edge k l) (rest : Pointer),
        .member s.key :: p = edge.pointer ++ rest := by
  have text (text : Option String) : at? p (ofText? text) ≠ some (.object members) :=
    at?_scalar (by cases text <;> rfl)
  -- members that hold entities are behind edges, and in texts nothing is found
  cases k with
  | tool =>
    simp only [slots, List.forall_mem_cons]
    refine ⟨?_, ?_, ?_, ?_, ?_, ?_, ?_, ?_, ?_, ?_, List.forall_mem_nil _⟩
    · exact fun _ found => absurd found (at?_scalar rfl)
    iterate 5 exact fun _ found => absurd found (text _)
    · exact fun _ found => absurd found at?_texts
    · intro _ found
      obtain ⟨index, x, rest, rfl, -⟩ := at?_items found
      exact ⟨_, .task index, rest, rfl⟩
    · intro _ found
      obtain ⟨index, x, rest, rfl, -⟩ := at?_items found
      exact ⟨_, .dataClass index, rest, rfl⟩
    · intro _ found
      obtain ⟨index, x, rest, rfl, -⟩ := at?_items found
      exact ⟨_, .enumeration index, rest, rfl⟩
  | task =>
    simp only [slots, List.forall_mem_cons]
    refine ⟨?_, ?_, ?_, fun _ _ => ⟨_, .settings, p, rfl⟩, List.forall_mem_nil _⟩
    iterate 3 exact fun _ found => absurd found (text _)
  | settings =>
    simp only [slots, List.forall_mem_cons]
    refine ⟨?_, ?_, ?_, List.forall_mem_nil _⟩
    iterate 2 exact fun _ found => absurd found (text _)
    · intro _ found
      obtain ⟨index, x, rest, rfl, -⟩ := at?_items found
      exact ⟨_, .settingsProperty index, rest, rfl⟩
  | dataClass =>
    simp only [slots, List.forall_mem_cons]
    refine ⟨fun _ found => absurd found (at?_scalar rfl), fun _ found => absurd found (text _), ?_,
      List.forall_mem_nil _⟩
    intro _ found
    obtain ⟨index, x, rest, rfl, -⟩ := at?_items found
    exact ⟨_, .dataProperty index, rest, rfl⟩
  | enumeration =>
    simp only [slots, List.forall_mem_cons]
    exact ⟨fun _ found => absurd found (at?_scalar rfl), fun _ found => absurd found (text _),
      fun _ found => absurd found at?_texts, List.forall_mem_nil _⟩
  | property =>
    simp only [slots, List.forall_mem_cons]
    refine ⟨?_, ?_, fun other => absurd rfl other, ?_, ?_, ?_, List.forall_mem_nil _⟩
    iterate 2 exact fun _ found => absurd found (at?_scalar rfl)
    iterate 2 exact fun _ found => absurd found (text _)
    · exact fun _ found => absurd found (at?_scalar rfl)

theorem EntityKind.exists_slot {k : EntityKind} {e : k.Entity} {step : Step} {tree : Json}
    (found : (k.toJson e).step? step = some tree) :
    ∃ s ∈ k.slots, step = .member s.key ∧ tree = s.value e := by
  rw [toJson_eq] at found
  cases step with
  | item index => cases found
  | member key =>
    obtain ⟨before, after, written, -⟩ := List.lookup_eq_some_iff.1 found
    have among : (key, tree) ∈ Slot.written k.slots e := written ▸ by simp
    obtain ⟨s, hs, same⟩ := List.mem_map.1 among
    cases same
    exact ⟨s, (List.mem_filter.1 hs).1, rfl, rfl⟩

theorem Site.exists_of_at? {t : Tool} {members : List (String × Json)} (p : Pointer)
    (outside : .member "Default" ∉ p) {k : EntityKind} (site : Site k) {e : k.Entity}
    (there : site.get? t = some e) (found : at? p (k.toJson e) = some (.object members)) :
    ∃ (l : EntityKind) (below : Site l) (inner : l.Entity),
      below.pointer = site.pointer ++ p ∧ below.get? t = some inner := by
  -- the induction is on the length of the pointer, which an edge shortens by a step or two
  induction length : p.length using Nat.strongRecOn generalizing p k with
  | ind n ih =>
    cases p with
    | nil => exact ⟨k, site, e, (List.append_nil _).symm, there⟩
    | cons step p =>
      obtain ⟨tree, stepped, inside⟩ := Option.bind_eq_some_iff.1 found
      obtain ⟨s, hs, rfl, rfl⟩ := EntityKind.exists_slot stepped
      have notDefault : s.key ≠ "Default" := by
        intro same
        rw [same] at outside
        exact outside List.mem_cons_self
      obtain ⟨l, edge, rest, split⟩ := EntityKind.exists_edge e s hs notDefault inside
      rw [split, at?_append, edge.at?_pointer] at found
      obtain ⟨tree, stepped, inside⟩ := Option.bind_eq_some_iff.1 found
      obtain ⟨inner, reached, rfl⟩ := Option.map_eq_some_iff.1 stepped
      have shorter : rest.length < n := by
        have total := congrArg List.length split
        rw [List.length_append, length] at total
        have one : 0 < edge.pointer.length := by cases edge <;> exact Nat.succ_pos _
        omega
      obtain ⟨m, below, last, pointer, there⟩ := ih rest.length shorter rest
        (fun among => outside (split ▸ List.mem_append_right _ among)) (site.along edge)
        (by rw [get?, there]; exact reached) inside rfl
      refine ⟨m, below, last, ?_, there⟩
      rw [pointer, Site.pointer, split, List.append_assoc]

theorem Site.settable {t : Tool} (site : Site .property) {p : Property}
    (there : site.get? t = some p) : p.settable = true := by
  have filtered {index : Nat} {properties : List Property}
      (found : (properties.filter (·.settable))[index]? = some p) : p.settable = true :=
    (List.mem_filter.1 (List.mem_of_getElem? found)).2
  cases site with
  | along owner edge =>
    cases edge with
    | settingsProperty index =>
      obtain ⟨c, -, found⟩ := Option.bind_eq_some_iff.1 there
      exact filtered found
    | dataProperty index =>
      obtain ⟨d, -, found⟩ := Option.bind_eq_some_iff.1 there
      exact filtered found

theorem Tool.toJson_unwired (t : Tool) : t.unwired.toJson = t.toJson := by
  have tasks : t.unwired.tasks.map Task.toJson = t.tasks.map Task.toJson := by
    rw [unwired, List.map_map]
    rfl
  have data : t.unwired.dataClasses.map DataClass.toJson = t.dataClasses.map DataClass.toJson := by
    rw [unwired, List.map_map]
    rfl
  have enumerations : t.unwired.enumerations.map Enumeration.toJson =
      t.enumerations.map Enumeration.toJson := by
    rw [unwired, List.map_map]
    rfl
  rw [toJson, tasks, data, enumerations]
  rfl

def Json.endedText (tree : Json) : String := String.ofList (tree.pretty 0 ++ ['\n'])

/-- All numbers in the defaults of a tool are such as a JSON value can hold. -/
def Tool.Finite (t : Tool) : Prop :=
  ∀ p ∈ Wrapper.allProperties t, p.default.tree.AllNumbers Number.IsFinite

/-- Without a member that may be missing the text is read as another tool, one that differs at the
entity the member was of. -/
theorem Tool.parse_dropMember {t : Tool} {ρ : Number → Number}
    (h : ReadableAs ρ Reader.nestingLimit t.toJson) {k : EntityKind} (site : Site k) {e : k.Entity}
    (there : site.get? t = some e) {s : Slot k.Entity} (hs : s ∈ k.slots)
    (optional : s.required = false) (present : ¬ (s.value e).Zero) :
    ∃ other, Tool.parse (modifyAt (dropMember s.key) site.pointer t.toJson).endedText = .ok other ∧
      other ≠ t.normal.mapNumbers ρ := by
  have stable := k.stable_clear s hs
  have tree := site.toJson_modify stable (fun e => EntityKind.toJson_clear e hs optional) t
  refine ⟨(site.modify s.clear t).normal.mapNumbers ρ, ?_, fun same => ?_⟩
  · rw [← tree]
    refine Tool.parse_readableAs ?_
    rw [tree]
    exact h.dropMember site.pointer s.key
  · have reached := congrArg site.get? same
    rw [site.get?_readAs, site.get?_readAs, site.get?_modify stable, there] at reached
    have nonzero : (s.value e).isZero = false :=
      Bool.eq_false_iff.2 fun zero => present (Json.isZero_iff.1 zero)
    exact EntityKind.readAs_clear_ne ρ hs optional nonzero (Option.some.inj reached)

structure Tool.EmitsExactly (t : Tool) : Prop where
  text : t.canonicalText = t.toJson.endedText
  /-- Every entity has an object with its members. -/
  entity : ∀ (k : EntityKind) (site : Site k) (e : k.Entity), site.get? t = some e →
    ∃ members, at? site.pointer t.toJson = some (.object members) ∧ k.Emits e members
  /-- There are no other objects outside the defaults, and none that says what can be set. -/
  object : ∀ (p : Pointer) (members : List (String × Json)), .member "Default" ∉ p →
    at? p t.toJson = some (.object members) →
      (∃ (k : EntityKind) (site : Site k) (e : k.Entity), site.pointer = p ∧ site.get? t = some e) ∧
        "Settable" ∉ members.map (·.1)
  settable : ∀ (site : Site .property) (p : Property), site.get? t = some p → p.settable = true
  settingsProperties : ∀ (site : Site .settings) (c : SettingsClass), site.get? t = some c →
    ((at? (site.pointer ++ [.member "Properties"]) t.toJson).isSome ↔
      ∃ p ∈ c.properties, p.settable = true)
  dataProperties : ∀ (site : Site .dataClass) (d : DataClass), site.get? t = some d →
    ((at? (site.pointer ++ [.member "Properties"]) t.toJson).isSome ↔
      ∃ p ∈ d.properties, p.settable = true)
  /-- A default is written whole, whatever stands inside it. -/
  default : ∀ (site : Site .property) (p : Property), site.get? t = some p →
    ¬ p.default.tree.Zero →
      at? (site.pointer ++ [.member "Default"]) t.toJson = some p.default.tree
  /-- What is derived when a tool is loaded changes nothing. -/
  derived : ∀ t' : Tool, t'.unwired = t.unwired → t'.toJson = t.toJson

/-- The text is read, and without any one of its optional members it is read as another tool. -/
def Tool.EmitsMinimally (t : Tool) : Prop :=
  ∃ whole, Tool.parse t.canonicalText = .ok whole ∧
    ∀ (k : EntityKind) (site : Site k) (e : k.Entity), site.get? t = some e →
      ∀ s ∈ k.slots, s.required = false → ¬ (s.value e).Zero →
        ∃ other, Tool.parse (modifyAt (dropMember s.key) site.pointer t.toJson).endedText =
            .ok other ∧ other ≠ whole

theorem Site.at?_entity {t : Tool} {k : EntityKind} (site : Site k) {e : k.Entity}
    (there : site.get? t = some e) :
    at? site.pointer t.toJson = some (.object (Slot.written k.slots e)) := by
  rw [site.at?_pointer, there, Option.map_some, EntityKind.toJson_eq]

theorem Site.at?_member {t : Tool} {k : EntityKind} (site : Site k) {e : k.Entity}
    (there : site.get? t = some e) {s : Slot k.Entity} (hs : s ∈ k.slots) :
    at? (site.pointer ++ [.member s.key]) t.toJson =
      if s.isWritten e then some (s.value e) else none := by
  rw [at?_append, site.at?_pointer, there, Option.map_some, Option.bind_some, at?_single,
    EntityKind.step?_toJson e hs]

theorem Site.isSome_properties {t : Tool} {k : EntityKind} (site : Site k) {e : k.Entity}
    (there : site.get? t = some e) {s : Slot k.Entity} (hs : s ∈ k.slots)
    (optional : s.required = false) {properties : List Property}
    (value : s.value e = propertiesJson properties) :
    (at? (site.pointer ++ [.member s.key]) t.toJson).isSome ↔
      ∃ p ∈ properties, p.settable = true := by
  have written : s.isWritten e = true ↔ ∃ p ∈ properties, p.settable = true := by
    rw [Slot.isWritten, optional, value, Bool.false_or, Bool.not_eq_true', ← Bool.not_eq_true,
      Json.isZero_iff, zero_propertiesJson]
    push Not
    simp only [Bool.not_eq_false, ne_eq]
  rw [site.at?_member there hs, ← written]
  split <;> simp_all

theorem EntityKind.settable_not_mem (k : EntityKind) : "Settable" ∉ k.keys := by
  cases k <;> decide

theorem Tool.emitsExactly (t : Tool) : t.EmitsExactly where
  text := rfl
  entity k site e there := ⟨_, site.at?_entity there, k.emits_written e⟩
  object p members outside found := by
    obtain ⟨k, site, e, rfl, there⟩ := Site.exists_of_at? p outside .root rfl found
    refine ⟨⟨k, site, e, rfl, there⟩, fun among => ?_⟩
    obtain rfl : members = Slot.written k.slots e := by
      rw [site.at?_entity there] at found
      cases found
      rfl
    exact k.settable_not_mem ((k.emits_written e).ordered.subset among)
  settable site p there := site.settable there
  settingsProperties site c there :=
    site.isSome_properties there (EntityKind.mem_slots "Properties" rfl) rfl rfl
  dataProperties site d there :=
    site.isSome_properties there (EntityKind.mem_slots "Properties" rfl) rfl rfl
  default site p there present := by
    rw [site.at?_member there (EntityKind.mem_slots "Default" rfl), if_pos]
    simpa [Slot.isWritten] using mt Json.isZero_iff.1 present
  derived t' same := by rw [← t'.toJson_unwired, same, t.toJson_unwired]

/-- The canonical form of a tool is exact, and minimal where it can be read at all. -/
theorem Tool.emission_exact_minimal (t : Tool) :
    t.EmitsExactly ∧
      (t.Finite → t.toJson.depth ≤ Reader.nestingLimit → t.EmitsMinimally) := by
  refine ⟨t.emitsExactly, fun finite depth_le => ?_⟩
  obtain ⟨ρ, readable⟩ := Within.exists_readableAs ⟨Tool.allNumbers_toJson finite, depth_le⟩
  exact ⟨_, Tool.parse_readableAs readable, fun k site e there s hs optional present =>
    Tool.parse_dropMember readable site there hs optional present⟩

/-- A tool with a read-only property and one whose default holds zeros beside a real number. -/
def Tool.probe : Tool where
  name := "Probe"
  help := some ""
  tasks := [{
    settings := {
      properties := [
        { name := "Output", type := "string", settable := false },
        { name := "Extra", type := "json",
          default := ⟨
            .object [("empty", .array []), ("ratio", .number (.real 1.5)),
              ("zero", .number (.natural 0))],
            ⟨by decide, by decide, nofun, trivial⟩, trivial, trivial, trivial, trivial⟩ }] } }]
  definitionFile := ⟨"probe.json"⟩

def Site.probed : Site .property :=
  .along (.along (.along .root (.task 0)) .settings) (.settingsProperty 0)

theorem Tool.emission_exact_minimal_probe :
    Site.probed.pointer =
        [.member "Tasks", .item 0, .member "SettingsClass", .member "Properties", .item 0] ∧
      ∃ whole other, Tool.parse Tool.probe.canonicalText = .ok whole ∧
        Tool.parse (modifyAt (dropMember "Default") Site.probed.pointer
          Tool.probe.toJson).endedText = .ok other ∧ other ≠ whole := by
  have finite : Tool.probe.Finite := by
    have ratio : (1.5 : Float).isFinite = true := by decide +kernel
    simp [Tool.Finite, Tool.probe, Wrapper.allProperties, FreeValue.null, Number.IsFinite, ratio]
  have depth_le : Tool.probe.toJson.depth ≤ Reader.nestingLimit := by
    have eight : Tool.probe.toJson.depth = 8 := by rfl
    rw [eight]
    decide
  obtain ⟨whole, parsed, minimal⟩ := (Tool.emission_exact_minimal Tool.probe).2 finite depth_le
  obtain ⟨other, parsed', different⟩ := minimal .property Site.probed _ rfl _
    (EntityKind.mem_slots "Default" rfl) rfl (fun zero => by cases zero)
  exact ⟨rfl, whole, other, parsed, parsed', different⟩

end Toolwright
