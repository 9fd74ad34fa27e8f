import Toolwright.Proofs.Wrapper.ClassText

/-!
Statements that push arguments, and the blocks that they stand in. The lines of a class are read
from the first to the last with the heads of the blocks that are open: comments are passed over, a
line that ends in an opening brace opens a block, and a closing brace closes the last one. How far
in a line stands makes no difference. What is read off a block is what is read off its body, under
its head.
-/

namespace Toolwright.Wrapper

structure Pushed where
  /-- The heads of the blocks that it stands in, the innermost first. -/
  under : List String
  statement : String
  deriving DecidableEq, Repr

def unmargined (line : String) : List Char := line.toList.dropWhile (· == ' ')

inductive LineRole where
  | passed
  | pushes (statement : String)
  | opens (head : String)
  | closes
  deriving DecidableEq

def roleOf (s : List Char) : LineRole :=
  if "//".toList.isPrefixOf s then .passed
  else if "push_formatted(".toList.isPrefixOf s then .pushes (String.ofList s)
  else if "\x7d".toList.isPrefixOf s then .closes
  else
    match List.isSuffixOf? " \x7b".toList s with
    | some head => .opens (String.ofList head)
    | none => .passed

def role (line : String) : LineRole := roleOf (unmargined line)

/-- The statements on lines, given the heads of the blocks that are open. -/
def statementsUnder : List String → List String → List Pushed
  | _, [] => []
  | heads, line :: rest =>
    match role line with
    | .passed => statementsUnder heads rest
    | .pushes statement => ⟨heads, statement⟩ :: statementsUnder heads rest
    | .opens head => statementsUnder (head :: heads) rest
    | .closes => statementsUnder heads.tail rest

def statements (lines : List String) : List Pushed := statementsUnder [] lines

/-- A statement of a block, where the block itself stands somewhere. -/
def Pushed.within (heads : List String) (p : Pushed) : Pushed :=
  { p with under := p.under ++ heads }

/-- The lines have the statements, wherever they stand, and leave open what was open. -/
def Emits (lines : List String) (out : List Pushed) : Prop :=
  ∀ heads rest, statementsUnder heads (lines ++ rest) =
    out.map (Pushed.within heads) ++ statementsUnder heads rest

theorem Emits.nil : Emits [] [] := fun _ _ => rfl

theorem Emits.append {xs ys : List String} {as bs : List Pushed} (hx : Emits xs as)
    (hy : Emits ys bs) : Emits (xs ++ ys) (as ++ bs) := fun heads rest => by
  rw [List.append_assoc, hx, hy, List.map_append, List.append_assoc]

theorem Emits.flatMap {α : Type} {f : α → List String} {g : α → List Pushed} {xs : List α}
    (h : ∀ x ∈ xs, Emits (f x) (g x)) : Emits (xs.flatMap f) (xs.flatMap g) := by
  induction xs with
  | nil => exact .nil
  | cons x xs ih =>
    obtain ⟨first, others⟩ := List.forall_mem_cons.1 h
    rw [List.flatMap_cons, List.flatMap_cons]
    exact first.append (ih others)

theorem Emits.flatMap_nil {α : Type} {f : α → List String} {xs : List α}
    (h : ∀ x ∈ xs, Emits (f x) []) : Emits (xs.flatMap f) [] := by
  have all := Emits.flatMap (g := fun _ => []) h
  rwa [List.flatMap_eq_nil_iff.2 fun _ _ => rfl] at all

theorem Emits.of_passed {lines : List String}
    (h : ∀ line ∈ lines, role line = .passed) : Emits lines [] := by
  induction lines with
  | nil => exact .nil
  | cons line lines ih =>
    obtain ⟨first, others⟩ := List.forall_mem_cons.1 h
    intro heads rest
    rw [List.cons_append, statementsUnder, first]
    exact ih others heads rest

theorem Emits.of_pushes {line statement : String}
    (h : role line = .pushes statement) : Emits [line] [⟨[], statement⟩] :=
  fun heads rest => by
    rw [List.singleton_append, statementsUnder, h]
    rfl

theorem Emits.statements_eq {lines : List String} {out : List Pushed} (h : Emits lines out) :
    statements lines = out := by
  have whole := h [] []
  rw [List.append_nil] at whole
  rw [statements, whole, statementsUnder, List.append_nil]
  have same : Pushed.within [] = id := funext fun p => by rw [Pushed.within, List.append_nil]; rfl
  rw [same, List.map_id]

@[simp] theorem role_indent (line : String) : role (indent line) = role line := by
  by_cases empty : line = ""
  · subst empty
    rfl
  · rw [indent_eq empty, role, unmargined, String.toList_append]
    rfl

theorem statementsUnder_indent (heads lines rest : List String) :
    statementsUnder heads (lines.map indent ++ rest) = statementsUnder heads (lines ++ rest) := by
  induction lines generalizing heads with
  | nil => rfl
  | cons line lines ih =>
    simp only [List.map_cons, List.cons_append, statementsUnder, role_indent, ih]

theorem Emits.block {head : String} {body : List String} {out : List Pushed}
    (opens : role (head ++ " \x7b") = .opens head) (h : Emits body out) :
    Emits (block head body) (out.map (Pushed.within [head])) := fun heads rest => by
  -- the body is read under its head, which its closing line takes off again
  have inside := h (head :: heads) ("\x7d" :: rest)
  have close : statementsUnder (head :: heads) ("\x7d" :: rest) = statementsUnder heads rest := rfl
  have deeper : Pushed.within heads ∘ Pushed.within [head] = Pushed.within (head :: heads) :=
    funext fun p => by simp [Pushed.within]
  rw [Wrapper.block, blockThen, String.append_empty, List.cons_append, statementsUnder, opens]
  dsimp only
  rw [List.append_assoc, statementsUnder_indent, List.singleton_append, inside, close, List.map_map,
    deeper]

/-- What comments, statements and closing lines begin with. -/
def roleMarks : List String := ["//", "push_formatted(", "\x7d"]

def isPlainStart (known : String) : Bool :=
  known.toList.head?.any (· != ' ') && roleMarks.all fun mark => clash mark.toList known.toList

theorem unmargined_of_head {line : String} (h : ∀ c ∈ line.toList.head?, c ≠ ' ') :
    unmargined line = line.toList :=
  Text.dropWhile_eq_self fun c hc => by simpa using h c hc

theorem role_of_unmarked {line : String} (margin : ∀ c ∈ line.toList.head?, c ≠ ' ')
    (h : ∀ mark ∈ roleMarks, ¬ mark.toList <+: line.toList) :
    role line = match List.isSuffixOf? " \x7b".toList line.toList with
      | some head => .opens (String.ofList head)
      | none => .passed := by
  simp only [roleMarks, List.forall_mem_cons, ← List.isPrefixOf_iff_prefix] at h
  obtain ⟨comment, push, close, _⟩ := h
  rw [role, unmargined_of_head margin, roleOf, if_neg comment, if_neg push, if_neg close]

theorem role_of_last {line : String} (margin : ∀ c ∈ line.toList.head?, c ≠ ' ')
    (h : ∀ mark ∈ roleMarks, ¬ mark.toList <+: line.toList)
    (last : line.toList.getLast? ≠ some '\x7b') : role line = .passed := by
  have cut : List.isSuffixOf? " \x7b".toList line.toList = none :=
    Option.eq_none_iff_forall_ne_some.2 fun head found => last (by
      rw [← List.isSuffixOf?_eq_some_iff_append_eq.1 found, List.getLast?_append]
      rfl)
  rw [role_of_unmarked margin h, cut]

section PlainStart

variable {known : String} (h : isPlainStart known = true) (rest : String)
include h

theorem head_of_isPlainStart : ∀ c ∈ (known ++ rest).toList.head?, c ≠ ' ' := fun c hc => by
  rw [isPlainStart, Bool.and_eq_true, Option.any_eq_true] at h
  obtain ⟨d, first, other⟩ := h.1
  rw [String.toList_append, List.head?_append, first, Option.some_or] at hc
  cases hc
  simpa using other

theorem not_mark_of_isPlainStart : ∀ mark ∈ roleMarks, ¬ mark.toList <+: (known ++ rest).toList :=
  fun mark hm begins => by
    rw [isPlainStart, Bool.and_eq_true, List.all_eq_true] at h
    rw [← List.isPrefixOf_iff_prefix, String.toList_append, not_prefix_of_clash (h.2 mark hm)]
      at begins
    cases begins

theorem role_opens : role (known ++ rest ++ " \x7b") = .opens (known ++ rest) := by
  have cut : List.isSuffixOf? " \x7b".toList (known ++ rest ++ " \x7b").toList =
      some (known ++ rest).toList :=
    List.isSuffixOf?_eq_some_iff_append_eq.2 (String.toList_append).symm
  have margin := head_of_isPlainStart h (rest ++ " \x7b")
  have unmarked := not_mark_of_isPlainStart h (rest ++ " \x7b")
  rw [← String.append_assoc] at margin unmarked
  rw [role_of_unmarked margin unmarked, cut]
  simp only [String.ofList_toList]

theorem role_passed (last : (known ++ rest).toList.getLast? ≠ some '\x7b') :
    role (known ++ rest) = .passed :=
  role_of_last (head_of_isPlainStart h rest) (not_mark_of_isPlainStart h rest) last

end PlainStart

theorem role_comment (text : String) : role ("/// " ++ text) = .passed := by
  have comment : "//".toList.isPrefixOf ("/// ".toList ++ text.toList) = true := rfl
  have margin : unmargined ("/// " ++ text) = "/// ".toList ++ text.toList := by
    rw [unmargined, String.toList_append]
    rfl
  rw [role, margin, roleOf, if_pos comment]

theorem role_entry {name : String} (readable : IsNameText name) (text : String) :
    role (name ++ ": " ++ text ++ ",") = .passed := by
  have line : (name ++ ": " ++ text ++ ",").toList =
      name.toList ++ ':' :: (" " ++ text ++ ",").toList := by
    simp
  have first : ∀ c ∈ (name ++ ": " ++ text ++ ",").toList.head?, isNameChar c = true ∨ c = ':' :=
    fun c hc => by
      rw [line] at hc
      rcases Text.mem_head?_append hc with own | behind
      · exact .inl (readable _ (List.mem_of_mem_head? own))
      · cases behind
        exact .inr rfl
  have apart : ∀ c d, isNameChar c = true ∨ c = ':' → isNameChar d = false → d ≠ ':' → c ≠ d := by
    rintro c d (own | rfl) other colon rfl
    · rw [own] at other
      cases other
    · exact colon rfl
  refine role_of_last (fun c hc => apart c ' ' (first c hc) (by decide) (by decide)) ?_ ?_
  · refine List.forall_mem_cons.2 ⟨fun begins => ?_, List.forall_mem_cons.2 ⟨fun begins => ?_,
      List.forall_mem_singleton.2 fun begins => ?_⟩⟩
    · obtain ⟨rest, whole⟩ := begins
      exact apart '/' '/' (first '/' (by rw [← whole]; rfl)) (by decide) (by decide) rfl
    · -- a name may be as long as the mark, but what stands behind it is a colon
      rw [line] at begins
      exact not_prefix_of_stop "push_formatted".toList [] readable (by decide)
        (by decide) (by decide) (by decide) begins
    · obtain ⟨rest, whole⟩ := begins
      exact apart '\x7d' '\x7d' (first '\x7d' (by rw [← whole]; rfl)) (by decide) (by decide) rfl
  · rw [getLast?_append_text _ (c := ',') (by decide)]
    decide

theorem role_step {line : String} (h : IsStep line) : role line = .passed := by
  obtain ⟨⟨known, hk, rest, whole⟩, last⟩ := h
  have plain : ∀ known ∈ ["self", "&self"], isPlainStart known = true := by decide
  have text : line = known ++ String.ofList rest :=
    String.toList_inj.1 (by rw [String.toList_append, String.toList_ofList, whole])
  rw [text] at last ⊢
  exact role_passed (plain known hk) _ last

theorem role_pushStatement (format key value : String) :
    role (pushStatement format key value) = .pushes (pushStatement format key value) := by
  obtain ⟨rest, whole⟩ := begins_pushStatement format key value
  have push : "push_formatted(".toList.isPrefixOf (pushStatement format key value).toList = true :=
    List.isPrefixOf_iff_prefix.2 ⟨rest, whole⟩
  have comment : "//".toList.isPrefixOf (pushStatement format key value).toList = false := by
    rw [← whole]
    rfl
  have margin : unmargined (pushStatement format key value) =
      (pushStatement format key value).toList :=
    unmargined_of_head fun c hc => by
      rw [← whole] at hc
      cases hc
      decide
  rw [role, margin, roleOf, comment, push, String.ofList_toList]
  rfl

theorem emits_docComment (doc : List String) : Emits (docComment doc) [] :=
  .of_passed fun line hl => by
    obtain ⟨text, _, rfl⟩ := List.mem_map.1 hl
    exact role_comment text

theorem emits_method {m : Method} {out : List Pushed} (h : Emits m.body out) :
    Emits m.lines (out.map
      (Pushed.within ["pub fn " ++ (m.name ++ "(" ++ m.parameters ++ ") -> " ++ m.result)])) := by
  have opens := @role_opens "pub fn " (by decide)
    (m.name ++ "(" ++ m.parameters ++ ") -> " ++ m.result)
  have head : "pub fn " ++ m.name ++ "(" ++ m.parameters ++ ") -> " ++ m.result =
      "pub fn " ++ (m.name ++ "(" ++ m.parameters ++ ") -> " ++ m.result) := by
    simp only [String.append_assoc]
  rw [Method.lines, head]
  exact (emits_docComment m.doc).append (.block opens h)

theorem emits_push (p : Push) : Emits p.lines [⟨[p.head], p.statement⟩] := by
  have statement : role p.statement = .pushes p.statement := by
    unfold Push.statement
    cases p.guard <;> exact role_pushStatement _ _ _
  have opens : role (p.head ++ " \x7b") = .opens p.head := by
    unfold Push.head
    cases p.guard with
    | flag =>
      have opens := @role_opens "if self." (by decide) (p.field ++ " == Some(true)")
      rwa [← String.append_assoc] at opens
    | valued => exact role_opens (by decide) p.field
    | eachItem => exact role_opens (by decide) p.field
    | eachEntry => exact role_opens (by decide) p.field
  rw [Push.lines_eq]
  exact .block opens (.of_pushes statement)

def argumentStatements (definitive : Option String) (pushes : List Push) : List Pushed :=
  (definitive.map fun a => ⟨[], pushStatement a "\"\"" "\"\""⟩).toList ++
    pushes.map fun p => ⟨[p.head], p.statement⟩

theorem emits_argumentsMethod (definitive : Option String) (pushes : List Push) :
    Emits (argumentsMethod definitive pushes).body (argumentStatements definitive pushes) := by
  have start : Emits ["let mut args = Vec::new();"] [] := .of_passed (by decide)
  have finish : Emits ["args"] [] := .of_passed (by decide)
  have first : Emits (definitive.map fun a => pushStatement a "\"\"" "\"\"").toList
      (definitive.map fun a => ⟨[], pushStatement a "\"\"" "\"\""⟩).toList := by
    cases definitive with
    | none => exact .nil
    | some a => exact .of_pushes (role_pushStatement a "\"\"" "\"\"")
  have others : Emits (pushes.flatMap Push.lines)
      (pushes.map fun p => ⟨[p.head], p.statement⟩) := by
    rw [List.map_eq_flatMap]
    exact .flatMap fun p _ => emits_push p
  have whole := ((start.append first).append others).append finish
  rwa [List.nil_append, List.append_nil] at whole

def ClassKind.statements (kind : ClassKind) (pushes : List Push) : List Pushed :=
  match kind with
  | .data => []
  | .settings definitive =>
    (argumentStatements definitive pushes).map
      (Pushed.within ["pub fn arguments(&self) -> Vec<String>"])

theorem emits_methods {c : Class} (names : ∀ f ∈ c.fields, IsNameText f.ident) :
    Emits (c.methods.flatMap fun m => "" :: m.lines)
      (c.kind.statements (c.fields.filterMap (·.push?))) := by
  have blank : Emits [""] [] := .of_passed (by decide)
  have fields : Emits ((c.fields.flatMap Field.methods).flatMap fun m => "" :: m.lines) [] :=
    .flatMap_nil fun m hm => by
      obtain ⟨f, hf, among⟩ := List.mem_flatMap.1 hm
      exact blank.append (emits_method (.of_passed fun line hl =>
        role_step (f.body_methods (names f hf) m among line hl)))
  have whole : ∀ {own : List String} {out : List Pushed}, Emits own out →
      Emits (((c.fields.flatMap Field.methods).flatMap fun m => "" :: m.lines) ++ own) out :=
    fun h => by
      have both := fields.append h
      rwa [List.nil_append] at both
  rw [Class.methods, List.flatMap_append]
  refine whole ?_
  cases c.kind with
  | data => exact .nil
  | settings definitive =>
    have head : "pub fn " ++ ("arguments" ++ "(" ++ "&self" ++ ") -> " ++ "Vec<String>") =
        "pub fn arguments(&self) -> Vec<String>" := by rfl
    have method := emits_method (emits_argumentsMethod definitive (c.fields.filterMap (·.push?)))
    simp only [argumentsMethod] at method
    have both := blank.append method
    rw [List.nil_append, head] at both
    rw [List.flatMap_singleton]
    exact both

theorem statements_class {c : Class} (names : ∀ f ∈ c.fields, IsNameText f.ident) :
    statements c.lines = (c.kind.statements (c.fields.filterMap (·.push?))).map
      (Pushed.within ["impl " ++ c.name]) := by
  have derive : Emits ["#[derive(Debug, Clone, PartialEq)]"] [] := .of_passed (by decide)
  have blank : Emits [""] [] := .of_passed (by decide)
  have entries : ∀ text : Field → String,
      Emits (c.fields.map fun f => f.ident ++ ": " ++ text f ++ ",") [] := fun text =>
    .of_passed fun line hl => by
      obtain ⟨f, hf, rfl⟩ := List.mem_map.1 hl
      exact role_entry (names f hf) (text f)
  have struct : Emits (block ("pub struct " ++ c.name) (c.fields.map fun f =>
      f.ident ++ ": " ++ f.shape.storage ++ ",")) [] :=
    .block (role_opens (by decide) c.name) (entries _)
  have initial : Emits (block ("impl Default for " ++ c.name) (block "fn default() -> Self"
      (block "Self" (c.fields.map fun f => f.ident ++ ": " ++ f.default.source ++ ",")))) [] :=
    .block (role_opens (by decide) c.name) (.block (by decide) (.block (by decide) (entries _)))
  have secrets : Emits ["pub const SECRET_PROPERTIES: &'static [&'static str] = &[" ++
      literalList c.secrets ++ "];"] [] := .of_passed (List.forall_mem_singleton.2 (by
    rw [String.append_assoc]
    refine role_passed (by decide) _ ?_
    rw [← String.append_assoc, getLast?_append_text _ (c := ';') (by decide)]
    decide))
  have implementation := Emits.block (@role_opens "impl " (by decide) c.name)
    (secrets.append (emits_methods names))
  have whole := ((((((emits_docComment c.doc).append derive).append struct).append blank).append
    initial).append blank).append implementation
  exact Emits.statements_eq whole

end Toolwright.Wrapper
