import Toolwright.Proofs.Loading.Wiring
import Toolwright.Proofs.Wrapper.Identifier

/-!
Legal names. A name is legal when it is an identifier and no keyword, or an identifier that is
marked and may be. The names that a wrapper declares always have the form of identifiers, but not
every keyword among them is kept away: for each kind of name the keywords that get through are
listed, and a name is legal exactly when it is none of them.
-/

namespace Toolwright.Wrapper

def activeKeywords : List String := [
  "as", "async", "await", "break", "const", "continue", "crate", "dyn", "else", "enum", "extern",
  "false", "fn", "for", "if", "impl", "in", "let", "loop", "match", "mod", "move", "mut", "pub",
  "ref", "return", "self", "Self", "static", "struct", "super", "trait", "true", "type", "unsafe",
  "use", "where", "while"]

def reservedKeywords : List String := [
  "abstract", "become", "box", "do", "final", "gen", "macro", "override", "priv", "try", "typeof",
  "unsized", "virtual", "yield"]

def isKeyword (s : String) : Bool := (activeKeywords ++ reservedKeywords).contains s

def unmarkable : List String := ["crate", "self", "super", "Self"]

/-- The form that identifiers and keywords have. An underscore alone is neither. -/
def isWord : List Char → Bool
  | [] => false
  | c :: rest =>
    (c.isAlpha || (c == '_' && !rest.isEmpty)) && rest.all fun d => d.isAlphanum || d == '_'

def isMarked : List Char → Bool
  | 'r' :: '#' :: word => isWord word && !unmarkable.contains (String.ofList word)
  | _ => false

def isLegal (name : String) : Bool :=
  (isWord name.toList && !isKeyword name) || isMarked name.toList

/-- Reserved words that the renderer takes for plain identifiers. -/
def missedKeywords : List String := [
  "abstract", "become", "box", "do", "final", "macro", "override", "priv", "try", "typeof",
  "unsized", "virtual"]

/-- Keywords that names of the kind are not kept away from. -/
def DeclarationKind.unguarded : DeclarationKind → List String
  | .type | .variant => ["Self"]
  | .field | .method => missedKeywords
  | .function => keywords ++ missedKeywords

theorem isLegal_of_isWord {name : String} (h : isWord name.toList = true) :
    isLegal name = true ↔ isKeyword name = false := by
  have unmarked : isMarked name.toList = false := by
    unfold isMarked
    split
    · rename_i word text
      simp [text, isWord] at h
    · rfl
  simp [isLegal, h, unmarked]

theorem mem_of_isKeyword {name : String} (h : isKeyword name = true) :
    name = "Self" ∨ name ∈ keywords ++ missedKeywords := by
  have all : ∀ word ∈ activeKeywords ++ reservedKeywords,
      word = "Self" ∨ word ∈ keywords ++ missedKeywords := by decide +kernel
  exact all name (List.contains_iff_mem.1 h)

theorem isKeyword_of_mem {name : String} (h : name ∈ keywords ++ missedKeywords) :
    isKeyword name = true := by
  have all : ∀ word ∈ keywords ++ missedKeywords, isKeyword word = true := by decide +kernel
  exact all name h

theorem isWord_append {s t : List Char} (hs : isWord s = true)
    (ht : ∀ c ∈ t, c = '_' ∨ isWordChar c = true) : isWord (s ++ t) = true := by
  have tail : t.all (fun d => d.isAlphanum || d == '_') = true := List.all_eq_true.2 fun d hd => by
    rcases ht d hd with rfl | word
    · rfl
    · rw [isWordChar, Bool.or_eq_true] at word
      simp [Text.isAlphanum_iff.2 (.inr word)]
  cases s with
  | nil => cases hs
  | cons c rest =>
    simp only [isWord, Bool.and_eq_true, Bool.or_eq_true] at hs
    obtain ⟨first, others⟩ := hs
    simp only [List.cons_append, isWord, List.all_append, others, tail, Bool.and_true,
      Bool.or_eq_true, Bool.and_eq_true]
    rcases first with letter | ⟨mark, more⟩
    · exact .inl letter
    · exact .inr ⟨mark, by simpa using fun empty => by simp [empty] at more⟩

theorem isWord_of_isPascal {s : List Char} (h : isPascal s = true) : isWord s = true := by
  cases s with
  | nil => cases h
  | cons c rest =>
    obtain ⟨upper, others⟩ := isPascal_cons.1 h
    have tail : rest.all (fun d => d.isAlphanum || d == '_') = true :=
      List.all_eq_true.2 fun d hd => by simp [others d hd]
    simp [isWord, Text.isAlpha_iff, upper, tail]

theorem isWord_snakeCase (s : String) : isWord (snakeCase s).toList = true := by
  have chars : ∀ c ∈ (snakeCase s).toList, c = '_' ∨ isWordChar c = true := fun c => mem_snakeCase
  rw [snakeCase, String.toList_ofList] at chars ⊢
  rcases snakeChars_head s.toList with ⟨c, rest, text, lower⟩ | ⟨d, rest, text, digit⟩
  · rw [text] at chars ⊢
    exact isWord_append (s := [c]) (by simp [isWord, Text.isAlpha_iff, lower])
      (List.forall_mem_cons.1 chars).2
  · rw [text] at chars ⊢
    have first : isWord ['_', d] = true := by
      simp [isWord, Text.isAlphanum_iff.2 (.inr (.inr digit))]
    exact isWord_append first (List.forall_mem_cons.1 (List.forall_mem_cons.1 chars).2).2

theorem isLegal_of_isPascal {name : String} (h : isPascal name.toList = true) :
    isLegal name = true ↔ name ∉ ["Self"] := by
  have lower : ∀ word ∈ keywords ++ missedKeywords, isPascal word.toList = false := by
    decide +kernel
  rw [isLegal_of_isWord (isWord_of_isPascal h), List.mem_singleton]
  constructor
  · rintro plain rfl
    exact absurd plain (by decide)
  · intro other
    cases keyword : isKeyword name with
    | false => rfl
    | true =>
      rcases mem_of_isKeyword keyword with same | among
      · exact absurd same other
      · exact absurd h (by simp [lower name among])

theorem isLegal_snakeCase (s : String) :
    isLegal (snakeCase s) = true ↔ snakeCase s ∉ keywords ++ missedKeywords := by
  rw [isLegal_of_isWord (isWord_snakeCase s)]
  constructor
  · intro plain among
    rw [isKeyword_of_mem among] at plain
    cases plain
  · intro other
    cases keyword : isKeyword (snakeCase s) with
    | false => rfl
    | true =>
      rcases mem_of_isKeyword keyword with same | among
      · have capital : 'S' ∈ (snakeCase s).toList := by simp [same]
        exact absurd (mem_snakeCase capital) (by decide)
      · exact absurd among other

theorem isLegal_plainIdent (s : String) :
    isLegal (plainIdent (snakeCase s)) = true ↔ plainIdent (snakeCase s) ∉ missedKeywords := by
  by_cases known : snakeCase s ∈ keywords
  · have all : ∀ word ∈ keywords,
        isLegal (plainIdent word) = true ∧ plainIdent word ∉ missedKeywords := by decide +kernel
    obtain ⟨legal, kept⟩ := all _ known
    exact ⟨fun _ => kept, fun _ => legal⟩
  · rw [plainIdent_of_not_mem known, isLegal_snakeCase, List.mem_append]
    exact ⟨fun neither among => neither (.inr among), fun other => not_or.2 ⟨known, other⟩⟩

theorem isLegal_getterName (s : String) :
    isLegal (getterName (snakeCase s)) = true ↔ getterName (snakeCase s) ∉ missedKeywords := by
  by_cases taken : snakeCase s ∈ reservedMethods
  · have all : ∀ word ∈ reservedMethods,
        isLegal (getterName word) = true ∧ getterName word ∉ missedKeywords := by decide
    obtain ⟨legal, kept⟩ := all _ taken
    exact ⟨fun _ => kept, fun _ => legal⟩
  · rw [getterName_of_not_mem taken]
    exact isLegal_plainIdent s

theorem isLegal_mutator {head : String} (among : head ∈ mutatorHeads) (s : String) :
    isLegal (head ++ snakeCase s) = true ↔ head ++ snakeCase s ∉ missedKeywords := by
  have heads : ∀ head ∈ mutatorHeads, isWord head.toList = true := by decide
  have unmarked : ∀ word ∈ keywords ++ missedKeywords, '_' ∉ word.toList := by decide +kernel
  have mark := underscore_mem_mutator among (snakeCase s)
  have whole : isWord (head ++ snakeCase s).toList = true := by
    rw [String.toList_append]
    exact isWord_append (heads head among) fun c => mem_snakeCase
  have plain : isKeyword (head ++ snakeCase s) = false := by
    cases keyword : isKeyword (head ++ snakeCase s) with
    | false => rfl
    | true =>
      rcases mem_of_isKeyword keyword with same | among
      · rw [same] at mark
        exact absurd mark (by decide)
      · exact absurd mark (unmarked _ among)
  rw [isLegal_of_isWord whole]
  exact ⟨fun _ among => unmarked _ (List.mem_append_right _ among) mark, fun _ => plain⟩

/-- A name that the wrapper of a tool declares is legal unless it is a keyword that names of its
kind are not kept away from. -/
theorem isLegal_iff {t : Tool} {d : Declaration} (h : d ∈ declarations (Source.ofTool t).lines) :
    isLegal d.name = true ↔ d.name ∉ d.kind.unguarded := by
  cases isMade_of_mem t h with
  | type s => exact isLegal_of_isPascal (isPascal_pascalCase s)
  | variant taken value => exact isLegal_of_isPascal (isPascal_freshIdent taken value)
  | field s => exact isLegal_plainIdent s
  | getter s => exact isLegal_getterName s
  | mutator among s => exact isLegal_mutator among s
  | function s => exact isLegal_snakeCase s
  | fixed among =>
    have all : ∀ d ∈ fixedDeclarations, isLegal d.name = true ∧ d.name ∉ d.kind.unguarded := by
      decide
    obtain ⟨legal, kept⟩ := all d among
    exact ⟨fun _ => kept, fun _ => legal⟩

/-- A tool, a property and a value whose identifiers are reserved, and a property whose name is
marked. -/
def reservedText : String :=
  "[\"Try\",null,null,null,null,null,[],[[null,null,null,[null,null,[[\"do\",\"bool\"]," ++
    "[\"type\",\"bool\"]]]]],[],[[\"Mode\",null,[\"self\"]]]]"

def reservedTool : Tool where
  name := "Try"
  tasks := [{ settings := { properties := [⟨"do", "bool", true, .null, none, none, false⟩,
    ⟨"type", "bool", true, .null, none, none, false⟩] } }]
  enumerations := [{ name := "Mode", values := ["self"] }]

def reservedLoaded : Tool := Loading.soleTool reservedTool

set_option maxRecDepth 4000 in
theorem parse_reservedText : Tool.parse reservedText = .ok reservedTool := by rfl

def reservedDeclarations : List Declaration :=
  [⟨.function, "try"⟩, ⟨.field, "do"⟩, ⟨.method, "do"⟩, ⟨.variant, "Self"⟩]

theorem mem_reservedLoaded :
    ∀ d ∈ ⟨.field, "r#type"⟩ :: reservedDeclarations,
      d ∈ declarations (Source.ofTool reservedLoaded).lines := by
  rw [declarations_ofTool]
  decide +kernel

theorem isLegal_iff_reserved :
    (⟨.field, "do"⟩ ∈ declarations (Source.ofTool reservedLoaded).lines ∧
        (isLegal "do" = true ↔ "do" ∉ DeclarationKind.field.unguarded)) ∧
      ⟨.field, "r#type"⟩ ∈ declarations (Source.ofTool reservedLoaded).lines ∧
        (isLegal "r#type" = true ↔ "r#type" ∉ DeclarationKind.field.unguarded) := by
  have bare := mem_reservedLoaded ⟨.field, "do"⟩ (by decide)
  have marked := mem_reservedLoaded ⟨.field, "r#type"⟩ (by decide)
  exact ⟨⟨bare, isLegal_iff bare⟩, marked, isLegal_iff marked⟩

/-- The description is accepted, and its wrapper declares a function, a field, a getter and a
variant that are keywords. -/
theorem load_reservedNames :
    Loading.load Loading.soleOptions (Loading.soleTree reservedText) Loading.soleFile =
        (.ok reservedLoaded, Loading.soleTree reservedText) ∧
      ∀ d ∈ reservedDeclarations,
        d ∈ declarations (Source.ofTool reservedLoaded).lines ∧ isLegal d.name = false := by
  have illegal : ∀ d ∈ reservedDeclarations, isLegal d.name = false := by decide
  exact ⟨Loading.load_sole parse_reservedText (by rfl),
    fun d hd => ⟨mem_reservedLoaded d (List.mem_cons_of_mem _ hd), illegal d hd⟩⟩

end Toolwright.Wrapper
