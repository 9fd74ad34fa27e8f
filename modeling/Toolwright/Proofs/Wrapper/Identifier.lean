import Toolwright.Proofs.Wrapper.Declaration

/-!
Names in the wrapper of a tool. Types and variants have Pascal-case names; fields, methods and
functions have snake-case names, some of them marked or made longer. All of them are read off the
text of the wrapper as they are.
-/

namespace Toolwright.Wrapper

theorem isPascal_numbered {base : String} (h : isPascal base.toList = true) (n : Nat) :
    isPascal (numbered base n).toList = true := by
  unfold numbered
  split
  · exact h
  · cases name : base.toList with
    | nil => rw [name] at h; cases h
    | cons c rest =>
      rw [name] at h
      obtain ⟨first, others⟩ := isPascal_cons.1 h
      rw [String.toList_append, name, List.cons_append, isPascal_cons]
      refine ⟨first, fun d hd => (List.mem_append.1 hd).elim (others d) fun digit => ?_⟩
      have among : d ∈ Nat.toDigits 10 n := by simpa [Nat.toString_eq_ofList_toDigits] using digit
      exact Text.isAlphanum_iff.2
        (.inr (.inr (Nat.isDigit_of_mem_toDigits (by omega) (by omega) among)))

theorem firstFree_eq_numbered (taken : List String) (base : String) (fuel n : Nat) :
    ∃ m, firstFree taken base fuel n = numbered base m := by
  induction fuel generalizing n with
  | zero => exact ⟨n, rfl⟩
  | succ fuel ih =>
    rw [firstFree]
    split
    · exact ih (n + 1)
    · exact ⟨n, rfl⟩

theorem isPascal_freshIdent (taken : List String) (value : String) :
    isPascal (freshIdent taken (pascalCase value)).toList = true := by
  obtain ⟨n, numbered⟩ := firstFree_eq_numbered taken (pascalCase value) taken.length 1
  rw [freshIdent, numbered]
  exact isPascal_numbered (isPascal_pascalCase value) n

theorem isPascal_variantsFrom (taken values : List String) :
    ∀ v ∈ variantsFrom taken values, isPascal v.ident.toList = true := by
  induction values generalizing taken with
  | nil => exact List.forall_mem_nil _
  | cons value rest ih => exact List.forall_mem_cons.2 ⟨isPascal_freshIdent taken value, ih _⟩

theorem plainIdent_of_not_mem {s : String} (h : s ∉ keywords) : plainIdent s = s := by
  have path : s ∉ pathKeywords := fun among => by
    have all : ∀ word ∈ pathKeywords, word ∈ keywords := by decide
    exact h (all s among)
  rw [plainIdent, if_neg (by simpa using path), if_neg (by simpa using h)]

theorem getterName_of_not_mem {s : String} (h : s ∉ reservedMethods) :
    getterName s = plainIdent s := by
  rw [getterName, if_neg (by simpa using h)]

/-- What the names of the methods begin with that change a field of the shape. -/
def TypeShape.mutatorHeads : TypeShape → List String
  | .scalar _ => ["set_", "reset_"]
  | .bool => ["set_", "reset_", "enable_", "disable_", "toggle_"]
  | .list _ => ["set_", "add_", "clear_"]
  | .map _ => ["set_", "add_", "remove_", "clear_"]

/-- All that the name of a method that changes a field may begin with. -/
def mutatorHeads : List String :=
  ["set_", "reset_", "enable_", "disable_", "toggle_", "add_", "remove_", "clear_"]

theorem underscore_mem_mutator {head : String} (among : head ∈ mutatorHeads) (s : String) :
    '_' ∈ (head ++ s).toList := by
  have heads : ∀ head ∈ mutatorHeads, '_' ∈ head.toList := by decide
  rw [String.toList_append]
  exact List.mem_append_left _ (heads head among)

theorem TypeShape.mutatorHeads_subset (shape : TypeShape) :
    shape.mutatorHeads ⊆ Wrapper.mutatorHeads := by
  cases shape <;> simp [TypeShape.mutatorHeads, Wrapper.mutatorHeads]

def Field.methodNames (f : Field) : List String :=
  f.getter :: if f.settable then f.shape.mutatorHeads.map (· ++ f.snake) else []

theorem Field.names_methods (f : Field) : f.methods.map (·.name) = f.methodNames := by
  have mutators : f.mutators.map (·.name) = f.shape.mutatorHeads.map (· ++ f.snake) := by
    unfold Field.mutators
    cases f.shape <;> rfl
  unfold Field.methods Field.methodNames
  cases f.settable with
  | true => exact congrArg (f.getter :: ·) mutators
  | false => rfl

/-- Methods that a class of the kind has besides those of its fields. -/
def ClassKind.methodNames : ClassKind → List String
  | .data => []
  | .settings _ => ["arguments"]

theorem Class.names_methods (c : Class) :
    c.methods.map (·.name) = c.fields.flatMap Field.methodNames ++ c.kind.methodNames := by
  have fields : (c.fields.flatMap Field.methods).map (·.name) =
      c.fields.flatMap Field.methodNames := by
    rw [List.map_flatMap]
    exact congrArg (c.fields.flatMap ·) (funext Field.names_methods)
  rw [Class.methods, List.map_append, fields]
  cases c.kind <;> rfl

def fixedDeclarations : List Declaration := [
  ⟨.function, "push_formatted"⟩, ⟨.method, "arguments"⟩, ⟨.method, "default"⟩, ⟨.method, "as_str"⟩,
  ⟨.method, "fmt"⟩]

inductive IsMade : Declaration → Prop
  | type (s : String) : IsMade ⟨.type, pascalCase s⟩
  | variant (taken : List String) (value : String) :
    IsMade ⟨.variant, freshIdent taken (pascalCase value)⟩
  | field (s : String) : IsMade ⟨.field, plainIdent (snakeCase s)⟩
  | getter (s : String) : IsMade ⟨.method, getterName (snakeCase s)⟩
  | mutator {head : String} (among : head ∈ mutatorHeads) (s : String) :
    IsMade ⟨.method, head ++ snakeCase s⟩
  | function (s : String) : IsMade ⟨.function, snakeCase s⟩
  | fixed {d : Declaration} (among : d ∈ fixedDeclarations) : IsMade d

variable (t : Tool)

def mutatorNames (p : Property) : List String :=
  if p.settable then (typeShape t p.type).mutatorHeads.map (· ++ snakeCase p.name) else []

theorem ident_ofProperty (p : Property) :
    (Field.ofProperty t p).ident = plainIdent (snakeCase p.name) := by rw [Field.ofProperty]

theorem getter_ofProperty (p : Property) :
    (Field.ofProperty t p).getter = getterName (snakeCase p.name) := by rw [Field.ofProperty]

theorem methodNames_ofProperty (p : Property) :
    (Field.ofProperty t p).methodNames = getterName (snakeCase p.name) :: mutatorNames t p := by
  rw [Field.methodNames, getter_ofProperty]
  rfl

theorem mem_mutatorNames {p : Property} {name : String} (h : name ∈ mutatorNames t p) :
    ∃ head ∈ mutatorHeads, name = head ++ snakeCase p.name := by
  unfold mutatorNames at h
  split at h
  · obtain ⟨head, hh, rfl⟩ := List.mem_map.1 h
    exact ⟨head, TypeShape.mutatorHeads_subset _ hh, rfl⟩
  · cases h

theorem isMade_methodNames (p : Property) :
    ∀ name ∈ (Field.ofProperty t p).methodNames, IsMade ⟨.method, name⟩ := by
  rw [methodNames_ofProperty]
  refine List.forall_mem_cons.2 ⟨.getter p.name, fun name hn => ?_⟩
  obtain ⟨head, among, rfl⟩ := mem_mutatorNames t hn
  exact .mutator among p.name

theorem isMade_ofProperties (name : String) (help : Option String) (properties : List Property)
    (kind : ClassKind) :
    ∀ d ∈ (Class.ofProperties t name help properties kind).declared, IsMade d := by
  have methods : ∀ name ∈ (Class.ofProperties t name help properties kind).methods.map (·.name),
      IsMade ⟨.method, name⟩ := fun name hn => by
    rw [Class.names_methods] at hn
    rcases List.mem_append.1 hn with inside | own
    · obtain ⟨f, hf, among⟩ := List.mem_flatMap.1 inside
      obtain ⟨p, _, rfl⟩ := List.mem_map.1 hf
      exact isMade_methodNames t p name among
    · change name ∈ kind.methodNames at own
      cases kind with
      | data => cases own
      | settings _ =>
        obtain rfl := List.mem_singleton.1 own
        exact .fixed (by decide)
  refine List.forall_mem_cons.2 ⟨.type name, List.forall_mem_append.2 ⟨fun d hd => ?_, ?_⟩⟩
  · obtain ⟨f, hf, rfl⟩ := List.mem_map.1 hd
    obtain ⟨p, _, rfl⟩ := List.mem_map.1 hf
    rw [ident_ofProperty]
    exact .field p.name
  · refine List.forall_mem_cons.2 ⟨.fixed (by decide), fun d hd => ?_⟩
    obtain ⟨m, hm, rfl⟩ := List.mem_map.1 hd
    have among : m.name ∈ (Class.ofProperties t name help properties kind).methods.map (·.name) :=
      List.mem_map_of_mem hm
    exact methods m.name among

theorem isMade_variantsFrom (taken values : List String) :
    ∀ v ∈ variantsFrom taken values, IsMade ⟨.variant, v.ident⟩ := by
  induction values generalizing taken with
  | nil => exact List.forall_mem_nil _
  | cons value rest ih => exact List.forall_mem_cons.2 ⟨.variant taken value, ih _⟩

theorem isMade_ofEnumeration (e : Enumeration) :
    ∀ d ∈ (EnumerationItem.ofEnumeration e).declared, IsMade d := by
  refine List.forall_mem_cons.2 ⟨.type e.name, List.forall_mem_append.2 ⟨fun d hd => ?_, ?_⟩⟩
  · obtain ⟨v, hv, rfl⟩ := List.mem_map.1 hd
    exact isMade_variantsFrom [] e.values v hv
  · exact List.forall_mem_cons.2 ⟨.fixed (by decide),
      List.forall_mem_singleton.2 (.fixed (by decide))⟩

theorem isMade_ofTool : ∀ item ∈ (Source.ofTool t).items, ∀ d ∈ item.declared, IsMade d := by
  intro item hi
  simp only [Source.ofTool, List.mem_append, List.mem_map, List.mem_flatMap] at hi
  rcases hi with (⟨e, _, rfl⟩ | ⟨d, _, rfl⟩) | ⟨task, _, among⟩
  · exact isMade_ofEnumeration e
  · exact isMade_ofProperties t d.name d.help d.properties .data
  · simp only [taskItems, List.mem_cons, List.not_mem_nil, or_false] at among
    rcases among with rfl | rfl
    · exact isMade_ofProperties t _ _ _ _
    · exact List.forall_mem_singleton.2 (.function _)

theorem IsNameText.append {s t : String} (hs : IsNameText s) (ht : IsNameText t) :
    IsNameText (s ++ t) := fun c hc => by
  rw [String.toList_append] at hc
  exact (List.mem_append.1 hc).elim (hs c) (ht c)

theorem isNameText_of_isPascal {s : String} (h : isPascal s.toList = true) : IsNameText s :=
  fun c hc => by simp [isNameChar, isPascal_all h c hc]

theorem isNameText_snakeCase (s : String) : IsNameText (snakeCase s) := fun c hc => by
  rcases mem_snakeCase hc with rfl | word
  · rfl
  · rw [isWordChar, Bool.or_eq_true] at word
    simp [isNameChar, Text.isAlphanum_iff.2 (.inr word)]

theorem isNameText_plainIdent {s : String} (h : IsNameText s) : IsNameText (plainIdent s) := by
  unfold plainIdent
  split
  · exact h.append (by decide)
  · split
    · exact IsNameText.append (by decide) h
    · exact h

theorem isNameText_getterName {s : String} (h : IsNameText s) : IsNameText (getterName s) := by
  unfold getterName
  split
  · exact h.append (by decide)
  · exact isNameText_plainIdent h

theorem IsMade.isNameText {d : Declaration} (h : IsMade d) : IsNameText d.name := by
  cases h with
  | type s => exact isNameText_of_isPascal (isPascal_pascalCase s)
  | variant taken value => exact isNameText_of_isPascal (isPascal_freshIdent taken value)
  | field s =>
    dsimp only
    exact isNameText_plainIdent (isNameText_snakeCase s)
  | getter s =>
    dsimp only
    exact isNameText_getterName (isNameText_snakeCase s)
  | @mutator head among s =>
    have heads : ∀ head ∈ mutatorHeads, IsNameText head := by decide
    exact (heads head among).append (isNameText_snakeCase s)
  | function s => exact isNameText_snakeCase s
  | fixed among =>
    have all : ∀ d ∈ fixedDeclarations, IsNameText d.name := by decide
    exact all d among

theorem declared_ofProperties (kind : DeclarationKind) (name : String) (help : Option String)
    (properties : List Property) (classKind : ClassKind) :
    declared kind (Class.ofProperties t name help properties classKind).lines =
      namesOf kind (Class.ofProperties t name help properties classKind).declared := by
  rw [declared, declarations_class fun d hd =>
    (isMade_ofProperties t name help properties classKind d hd).isNameText]

theorem declarations_ofTool :
    declarations (Source.ofTool t).lines = (Source.ofTool t).declared :=
  declarations_source fun item hi d hd => (isMade_ofTool t item hi d hd).isNameText

theorem isMade_of_mem {d : Declaration} (h : d ∈ declarations (Source.ofTool t).lines) :
    IsMade d := by
  rw [declarations_ofTool] at h
  rcases List.mem_cons.1 h with rfl | inside
  · exact .fixed (by decide)
  · obtain ⟨item, hi, among⟩ := List.mem_flatMap.1 inside
    exact isMade_ofTool t item hi d among

end Toolwright.Wrapper
