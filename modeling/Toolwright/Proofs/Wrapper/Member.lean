import Toolwright.Proofs.Loading.Wiring
import Toolwright.Proofs.Wrapper.Identifier

/-!
Names of the members of a class. Fields, getters and the methods that change fields are all named
after the snake-case names of properties. Marking and lengthening keep different names different,
with one exception: the getter of a reserved name is called like another property may be. So members
are distinct exactly when the snake-case names are, none of them is the name of a method that
changes a property, and none is what a reserved name is lengthened to.
-/

namespace Toolwright.Wrapper

theorem hash_notMem_snakeCase (s : String) : '#' ∉ (snakeCase s).toList := fun mark =>
  absurd (mem_snakeCase mark) (by decide)

theorem getLast?_snakeCase (s : String) : (snakeCase s).toList.getLast? ≠ some '_' := by
  obtain ⟨c, last, word⟩ := snakeChars_getLast? s.toList
  rw [snakeCase, String.toList_ofList, last]
  rintro ⟨⟩
  exact absurd word (by decide)

theorem eq_of_plainIdent_eq {s name : String} (h : plainIdent s = name)
    (hash : '#' ∉ name.toList) (last : name.toList.getLast? ≠ some '_') : s = name := by
  by_cases known : s ∈ keywords
  · have marked : ∀ word ∈ keywords, '#' ∈ (plainIdent word).toList ∨
        (plainIdent word).toList.getLast? = some '_' := by decide
    subst h
    exact (marked s known).elim (absurd · hash) (absurd · last)
  · rwa [plainIdent_of_not_mem known] at h

theorem plainIdent_snakeCase_inj {a b : String}
    (h : plainIdent (snakeCase a) = plainIdent (snakeCase b)) : snakeCase a = snakeCase b := by
  by_cases hb : snakeCase b ∈ keywords
  · by_cases ha : snakeCase a ∈ keywords
    · have all : ∀ x ∈ keywords, ∀ y ∈ keywords, plainIdent x = plainIdent y → x = y := by
        decide +kernel
      exact all _ ha _ hb h
    · rw [plainIdent_of_not_mem ha] at h
      exact (eq_of_plainIdent_eq h.symm (hash_notMem_snakeCase a) (getLast?_snakeCase a)).symm
  · rw [plainIdent_of_not_mem hb] at h
    exact eq_of_plainIdent_eq h (hash_notMem_snakeCase b) (getLast?_snakeCase b)

theorem eq_of_getterName_eq {word s : String} (reserved : word ∈ reservedMethods)
    (other : s ∉ reservedMethods) (h : getterName s = getterName word) : s = word ++ "_value" := by
  have all : ∀ word ∈ reservedMethods, getterName word = word ++ "_value" ∧
      '#' ∉ (getterName word).toList ∧ (getterName word).toList.getLast? ≠ some '_' := by decide
  obtain ⟨value, hash, last⟩ := all word reserved
  rw [getterName_of_not_mem other] at h
  rw [← value]
  exact eq_of_plainIdent_eq h hash last

theorem getterName_snakeCase_inj {a b : String}
    (h : getterName (snakeCase a) = getterName (snakeCase b))
    (apart : ∀ word ∈ reservedMethods, ¬ (snakeCase a = word ∧ snakeCase b = word ++ "_value") ∧
      ¬ (snakeCase b = word ∧ snakeCase a = word ++ "_value")) : snakeCase a = snakeCase b := by
  by_cases ha : snakeCase a ∈ reservedMethods <;> by_cases hb : snakeCase b ∈ reservedMethods
  · have all : ∀ x ∈ reservedMethods, ∀ y ∈ reservedMethods,
        getterName x = getterName y → x = y := by decide
    exact all _ ha _ hb h
  · exact absurd ⟨rfl, eq_of_getterName_eq ha hb h.symm⟩ (apart _ ha).1
  · exact absurd ⟨rfl, eq_of_getterName_eq hb ha h⟩ (apart _ hb).2
  · rw [getterName_of_not_mem ha, getterName_of_not_mem hb] at h
    exact plainIdent_snakeCase_inj h

theorem mutator_inj {head head' s s' : String} (hh : head ∈ mutatorHeads)
    (hh' : head' ∈ mutatorHeads) (h : head ++ s = head' ++ s') : head = head' ∧ s = s' := by
  have apart : ∀ x ∈ mutatorHeads, ∀ y ∈ mutatorHeads, x.toList <+: y.toList → x = y := by decide
  have text : head.toList ++ s.toList = head'.toList ++ s'.toList := by
    rw [← String.toList_append, ← String.toList_append, h]
  have same : head = head' := by
    rcases List.prefix_or_prefix_of_prefix (List.prefix_append _ s.toList)
      (text ▸ List.prefix_append _ s'.toList) with shorter | longer
    · exact apart _ hh _ hh' shorter
    · exact (apart _ hh' _ hh longer).symm
  subst same
  exact ⟨rfl, String.toList_inj.1 (List.append_cancel_left text)⟩

theorem plain_mutator {head : String} (hh : head ∈ mutatorHeads) (s : String) :
    head ++ s ∉ reservedMethods ++ keywords := by
  have unmarked : ∀ word ∈ reservedMethods ++ keywords, '_' ∉ word.toList := by decide
  exact fun among => unmarked _ among (underscore_mem_mutator hh s)

theorem getterName_eq_mutator {a b head : String} (hh : head ∈ mutatorHeads) :
    getterName (snakeCase a) = head ++ snakeCase b ↔ snakeCase a = head ++ snakeCase b := by
  constructor
  · intro h
    by_cases reserved : snakeCase a ∈ reservedMethods
    · have apart : ∀ word ∈ reservedMethods, ∀ head ∈ mutatorHeads,
          ¬ head.toList <+: (getterName word).toList := by decide
      have begins : head.toList <+: (getterName (snakeCase a)).toList := by
        rw [h, String.toList_append]
        exact List.prefix_append _ _
      exact absurd begins (apart _ reserved _ hh)
    · have clean : ∀ head ∈ mutatorHeads, '#' ∉ head.toList := by decide
      rw [getterName_of_not_mem reserved] at h
      refine eq_of_plainIdent_eq h ?_ ?_
      · rw [String.toList_append, List.mem_append, not_or]
        exact ⟨clean head hh, hash_notMem_snakeCase b⟩
      · obtain ⟨c, last, _⟩ := snakeChars_getLast? b.toList
        have ends : (snakeCase b).toList.getLast? = some c := by
          rw [snakeCase, String.toList_ofList, last]
        have other := getLast?_snakeCase b
        rw [ends] at other
        rwa [String.toList_append, List.getLast?_append, ends, Option.some_or]
  · intro h
    obtain ⟨reserved, keyword⟩ := not_or.1 (mt List.mem_append.2 (plain_mutator hh (snakeCase b)))
    rw [h, getterName_of_not_mem reserved, plainIdent_of_not_mem keyword]

variable (t : Tool)

def snakeNames (properties : List Property) : List String := properties.map (snakeCase ·.name)

structure MembersApart (properties : List Property) : Prop where
  /-- The properties have different snake-case names. -/
  cased : (snakeNames properties).Nodup
  /-- None is called like a method that changes one of them. -/
  mutators : ∀ p ∈ properties, ∀ name ∈ mutatorNames t p, name ∉ snakeNames properties
  /-- None is called like the getter of one whose name is reserved. -/
  reserved : ∀ word ∈ reservedMethods, word ∈ snakeNames properties →
    word ++ "_value" ∉ snakeNames properties

variable {t} {properties : List Property}

theorem nodup_fieldNames :
    ((snakeNames properties).map plainIdent).Nodup ↔ (snakeNames properties).Nodup := by
  refine ⟨List.Nodup.of_map _, fun cased => (List.nodup_map_iff_inj_on cased).2 ?_⟩
  intro x hx y hy same
  obtain ⟨p, _, rfl⟩ := List.mem_map.1 hx
  obtain ⟨q, _, rfl⟩ := List.mem_map.1 hy
  exact plainIdent_snakeCase_inj same

theorem nodup_getterNames :
    ((snakeNames properties).map getterName).Nodup ↔ (snakeNames properties).Nodup ∧
      ∀ word ∈ reservedMethods, word ∈ snakeNames properties →
        word ++ "_value" ∉ snakeNames properties := by
  constructor
  · intro distinct
    have cased := List.Nodup.of_map _ distinct
    refine ⟨cased, fun word reserved there longer => ?_⟩
    have all : ∀ word ∈ reservedMethods,
        getterName word = getterName (word ++ "_value") ∧ word ≠ word ++ "_value" := by decide
    obtain ⟨same, other⟩ := all word reserved
    exact other ((List.nodup_map_iff_inj_on cased).1 distinct _ there _ longer same)
  · rintro ⟨cased, apart⟩
    refine (List.nodup_map_iff_inj_on cased).2 fun x hx y hy same => ?_
    obtain ⟨p, _, rfl⟩ := List.mem_map.1 hx
    obtain ⟨q, _, rfl⟩ := List.mem_map.1 hy
    exact getterName_snakeCase_inj same fun word reserved =>
      ⟨fun ⟨hp, hq⟩ => apart word reserved (hp ▸ hx) (hq ▸ hy),
        fun ⟨hq, hp⟩ => apart word reserved (hq ▸ hy) (hp ▸ hx)⟩

theorem nodup_mutatorNames (cased : (snakeNames properties).Nodup) :
    (properties.flatMap (mutatorNames t)).Nodup := by
  refine List.nodup_flatMap.2 ⟨fun p _ => ?_, ?_⟩
  · unfold mutatorNames
    split
    · have heads : (typeShape t p.type).mutatorHeads.Nodup := by
        cases typeShape t p.type <;> simp [TypeShape.mutatorHeads]
      refine (List.nodup_map_iff_inj_on heads).2 fun x hx y hy same => ?_
      exact (mutator_inj (TypeShape.mutatorHeads_subset _ hx) (TypeShape.mutatorHeads_subset _ hy)
        same).1
    · exact List.nodup_nil
  · refine (List.pairwise_map.1 cased).imp fun {p q} other => ?_
    intro name hp hq
    obtain ⟨head, hh, rfl⟩ := mem_mutatorNames t hp
    obtain ⟨head', hh', same⟩ := mem_mutatorNames t hq
    exact other (mutator_inj hh hh' same).2

theorem disjoint_mutatorNames :
    ((snakeNames properties).map getterName).Disjoint (properties.flatMap (mutatorNames t)) ↔
      ∀ p ∈ properties, ∀ name ∈ mutatorNames t p, name ∉ snakeNames properties := by
  constructor
  · intro disjoint p hp name hn among
    have own : getterName name = name := by
      obtain ⟨q, _, called⟩ := List.mem_map.1 among
      obtain ⟨head, hh, same⟩ := mem_mutatorNames t hn
      have getter := (getterName_eq_mutator hh).2 (called.trans same)
      rwa [called, ← same] at getter
    have getter : name ∈ (snakeNames properties).map getterName := List.mem_map.2 ⟨name, among, own⟩
    exact disjoint getter (List.mem_flatMap.2 ⟨p, hp, hn⟩)
  · intro apart name getter mutator
    obtain ⟨s, hs, rfl⟩ := List.mem_map.1 getter
    obtain ⟨q, _, rfl⟩ := List.mem_map.1 hs
    obtain ⟨p, hp, hn⟩ := List.mem_flatMap.1 mutator
    obtain ⟨head, hh, same⟩ := mem_mutatorNames t hn
    have called := (getterName_eq_mutator hh).1 same
    rw [same, ← called] at hn
    exact apart p hp _ hn hs

theorem nodup_propertyMethods :
    ((properties.map (Field.ofProperty t)).flatMap Field.methodNames).Nodup ↔
      MembersApart t properties := by
  have parts : ((properties.map (Field.ofProperty t)).flatMap Field.methodNames).Perm
      ((snakeNames properties).map getterName ++ properties.flatMap (mutatorNames t)) := by
    have getters : (snakeNames properties).map getterName =
        properties.flatMap fun p => [getterName (snakeCase p.name)] := by
      rw [snakeNames, List.map_map, List.map_eq_flatMap]
      simp only [Function.comp_apply]
    have methods : (fun p => (Field.ofProperty t p).methodNames) =
        fun p => [getterName (snakeCase p.name)] ++ mutatorNames t p :=
      funext (methodNames_ofProperty t)
    rw [getters, List.flatMap_map, methods]
    exact (List.flatMap_append_perm properties _ (mutatorNames t)).symm
  rw [parts.nodup_iff, List.nodup_append', nodup_getterNames, disjoint_mutatorNames]
  constructor
  · rintro ⟨⟨cased, reserved⟩, _, mutators⟩
    exact ⟨cased, mutators, reserved⟩
  · rintro ⟨cased, mutators, reserved⟩
    exact ⟨⟨cased, reserved⟩, nodup_mutatorNames cased, mutators⟩

theorem notMem_propertyMethods {word : String} (fixed : word ∈ ["default", "arguments"]) :
    word ∉ (properties.map (Field.ofProperty t)).flatMap Field.methodNames := by
  intro among
  obtain ⟨f, hf, hn⟩ := List.mem_flatMap.1 among
  obtain ⟨p, _, rfl⟩ := List.mem_map.1 hf
  have reserved : word ∈ reservedMethods := by
    have all : ∀ word ∈ ["default", "arguments"], word ∈ reservedMethods := by decide
    exact all word fixed
  rw [methodNames_ofProperty] at hn
  rcases List.mem_cons.1 hn with getter | mutator
  · by_cases long : snakeCase p.name ∈ reservedMethods
    · have all : ∀ s ∈ reservedMethods, getterName s ∉ reservedMethods := by decide
      exact all _ long (getter ▸ reserved)
    · have clean : ∀ word ∈ reservedMethods,
          '#' ∉ word.toList ∧ word.toList.getLast? ≠ some '_' := by decide
      rw [getterName_of_not_mem long] at getter
      exact long (eq_of_plainIdent_eq getter.symm (clean word reserved).1 (clean word reserved).2 ▸
        reserved)
  · obtain ⟨head, hh, rfl⟩ := mem_mutatorNames t mutator
    exact plain_mutator hh _ (List.mem_append_left _ reserved)

theorem nodup_fields_ofProperties (name : String) (help : Option String) (kind : ClassKind) :
    (declared .field (Class.ofProperties t name help properties kind).lines).Nodup ↔
      (snakeNames properties).Nodup := by
  have names : (properties.map (Field.ofProperty t)).map (·.ident) =
      (snakeNames properties).map plainIdent := by
    simp only [snakeNames, List.map_map, Function.comp_def, ident_ofProperty]
  rw [declared_ofProperties, Class.namesOf_field, ← nodup_fieldNames, ← names]
  rfl

theorem nodup_methods_ofProperties (name : String) (help : Option String) (kind : ClassKind) :
    (declared .method (Class.ofProperties t name help properties kind).lines).Nodup ↔
      MembersApart t properties := by
  have fixed : "default" ∉ kind.methodNames ∧ kind.methodNames.Nodup ∧
      ∀ name ∈ kind.methodNames, name ∈ ["default", "arguments"] := by
    cases kind <;> simp [ClassKind.methodNames]
  obtain ⟨other, once, among⟩ := fixed
  rw [declared_ofProperties, Class.namesOf_method, Class.names_methods,
    ← nodup_propertyMethods]
  change ("default" :: ((properties.map (Field.ofProperty t)).flatMap Field.methodNames ++
    kind.methodNames)).Nodup ↔ _
  rw [List.nodup_cons, List.nodup_append', List.mem_append, not_or]
  refine ⟨fun ⟨_, distinct, _⟩ => distinct, fun distinct =>
    ⟨⟨notMem_propertyMethods (by simp), other⟩, distinct, once, fun name inside own => ?_⟩⟩
  exact notMem_propertyMethods (among name own) inside

def Source.classes (s : Source) : List Class := s.items.filterMap fun
  | .cls c => some c
  | _ => none

def propertyLists (t : Tool) : List (List Property) :=
  t.dataClasses.map (·.properties) ++ t.tasks.map (·.settings.properties)

theorem ofProperties_of_mem {c : Class} (h : c ∈ (Source.ofTool t).classes) :
    ∃ name help kind, ∃ properties ∈ propertyLists t,
      c = Class.ofProperties t name help properties kind := by
  obtain ⟨item, hi, own⟩ := List.mem_filterMap.1 h
  simp only [Source.ofTool, List.mem_append, List.mem_map, List.mem_flatMap] at hi
  rcases hi with (⟨e, _, rfl⟩ | ⟨d, hd, rfl⟩) | ⟨task, ht, among⟩
  · cases own
  · cases own
    exact ⟨_, _, _, _, List.mem_append_left _ (List.mem_map_of_mem hd), rfl⟩
  · simp only [taskItems, List.mem_cons, List.not_mem_nil, or_false] at among
    rcases among with rfl | rfl
    · cases own
      exact ⟨_, _, _, _, List.mem_append_right _ (List.mem_map_of_mem ht), rfl⟩
    · cases own

theorem declared_of_mem {c : Class} (h : c ∈ (Source.ofTool t).classes) (kind : DeclarationKind) :
    declared kind c.lines = namesOf kind c.declared := by
  obtain ⟨name, help, classKind, properties, _, rfl⟩ := ofProperties_of_mem h
  exact declared_ofProperties t kind name help properties classKind

/-- Every class of a wrapper has the members of properties of the tool. Its fields are distinct
exactly when the snake-case names of the properties are, and its methods exactly when nothing else
makes two of them meet either. -/
theorem nodup_members_iff {c : Class} (h : c ∈ (Source.ofTool t).classes) :
    ∃ properties ∈ propertyLists t, c.fields = properties.map (Field.ofProperty t) ∧
      ((declared .field c.lines).Nodup ↔ (snakeNames properties).Nodup) ∧
      ((declared .method c.lines).Nodup ↔ MembersApart t properties) := by
  obtain ⟨name, help, kind, properties, among, rfl⟩ := ofProperties_of_mem h
  exact ⟨properties, among, rfl, nodup_fields_ofProperties name help kind,
    nodup_methods_ofProperties name help kind⟩

def meetingText : String :=
  "[\"demo\",null,null,null,null,null,[],[]," ++
    "[[\"Key\",null,[[\"ApiKey\",\"int\"],[\"apiKey\",\"int\"]]]," ++
    "[\"Box\",null,[[\"Foo\",\"int\"],[\"SetFoo\",\"int\"]," ++
    "[\"Default\",\"int\"],[\"DefaultValue\",\"int\"]]]]]"

def meetingTool : Tool where
  name := "demo"
  dataClasses := [
    { name := "Key"
      properties := [{ name := "ApiKey", type := "int" }, { name := "apiKey", type := "int" }] },
    { name := "Box"
      properties := [{ name := "Foo", type := "int" }, { name := "SetFoo", type := "int" },
        { name := "Default", type := "int" }, { name := "DefaultValue", type := "int" }] }]

def meetingLoaded : Tool := Loading.soleTool meetingTool

set_option maxRecDepth 4000 in
theorem parse_meetingText : Tool.parse meetingText = .ok meetingTool := by rfl

/-- The class of the wrapper that has a setter called like a getter, and two getters of one name. -/
def meetingClass : Class :=
  Class.ofProperties meetingLoaded "Box" none [{ name := "Foo", type := "int" },
    { name := "SetFoo", type := "int" }, { name := "Default", type := "int" },
    { name := "DefaultValue", type := "int" }] .data

theorem meetingClass_mem : meetingClass ∈ (Source.ofTool meetingLoaded).classes :=
  List.mem_cons_of_mem _ List.mem_cons_self

theorem nodup_members_iff_meeting :
    meetingClass ∈ (Source.ofTool meetingLoaded).classes ∧
      ∃ properties ∈ propertyLists meetingLoaded,
        meetingClass.fields = properties.map (Field.ofProperty meetingLoaded) ∧
        ((declared .field meetingClass.lines).Nodup ↔ (snakeNames properties).Nodup) ∧
        ((declared .method meetingClass.lines).Nodup ↔ MembersApart meetingLoaded properties) :=
  ⟨meetingClass_mem, nodup_members_iff meetingClass_mem⟩

/-- The description is accepted, and in each class of its wrapper methods have the same name; in
the first class both fields have. -/
theorem load_meetingMembers :
    Loading.load Loading.soleOptions (Loading.soleTree meetingText) Loading.soleFile =
        (.ok meetingLoaded, Loading.soleTree meetingText) ∧
      (Source.ofTool meetingLoaded).classes.map (fun c => declared .field c.lines) =
        [["api_key", "api_key"], ["foo", "set_foo", "default", "default_value"]] ∧
      ∀ c ∈ (Source.ofTool meetingLoaded).classes, ¬ (declared .method c.lines).Nodup := by
  refine ⟨Loading.load_sole parse_meetingText (by rfl), ?_, fun c hc => ?_⟩
  · rw [List.map_congr_left fun c hc => declared_of_mem hc .field]
    decide +kernel
  · have repeated : ∀ c ∈ (Source.ofTool meetingLoaded).classes,
        ¬ (namesOf .method c.declared).Nodup := by decide +kernel
    rw [declared_of_mem hc]
    exact repeated c hc

end Toolwright.Wrapper
