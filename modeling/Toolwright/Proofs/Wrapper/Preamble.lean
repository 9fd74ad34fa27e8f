import Mathlib.Data.List.DropRight
import Mathlib.Data.List.Basic
import Toolwright.Proofs.Loading.Wiring
import Toolwright.Proofs.Text.Lines
import Toolwright.Rendering

/-!
What stands in front of the code of a wrapper. Up to the line that declares the name of the tool
there are comments, empty lines and the import of maps; help texts are put there line by line, the
official address as it is. So an address of several lines leaves the comment, and nothing else does.
-/

namespace Toolwright

open Text

theorem Path.mem_of_mem_fileName? {p : Path} {name : String} (h : p.fileName? = some name)
    {c : Char} (hc : c ∈ name.toList) : c ∈ p.text.toList := by
  have step : Step.entry name ∈ p.steps := by
    unfold fileName? at h
    split at h
    · rename_i last
      cases h
      exact List.mem_of_getLast? last
    · cases h
  have piece : Step.entry name ∈ (splitAt (· == '/') p.text.toList).filterMap stepOf := by
    rcases List.mem_append.1 step with first | piece
    · split at first
      · simp at first
      · split at first <;> simp at first
    · exact piece
  obtain ⟨part, hp, named⟩ := List.mem_filterMap.1 piece
  have same : part = name.toList := by
    unfold stepOf at named
    split at named
    · cases named
    · split at named
      · cases named
      · cases named
        rw [String.toList_ofList]
  exact (of_mem_splitAt hp c (same ▸ hc)).1

namespace Wrapper

/-- What the line that declares the name of the tool begins with. -/
def nameMark : List Char := "pub const TOOL_NAME".toList

def importLine : List Char := "use std::collections::BTreeMap;".toList

def isHarmless (line : List Char) : Bool :=
  line.isEmpty || ['/', '/'].isPrefixOf line || line == importLine

/-- The lines in front of the first one that begins like the declaration of the tool's name. -/
def beforeName (lines : List (List Char)) : List (List Char) :=
  lines.takeWhile fun line => !nameMark.isPrefixOf line

def addressTail (tool : Tool) : List (List Char) :=
  (pieces (textOrEmpty tool.officialUrl).toList).tail

theorem isHarmless_comment (text : List Char) : isHarmless ('/' :: '/' :: text) = true := rfl

theorem not_nameMark_of_isHarmless {line : List Char} (h : isHarmless line = true) :
    nameMark.isPrefixOf line = false := by
  simp only [isHarmless, Bool.or_eq_true, List.isEmpty_iff, List.isPrefixOf_iff_prefix,
    beq_iff_eq] at h
  rcases h with (rfl | ⟨rest, rfl⟩) | rfl <;> rfl

theorem beforeName_stop {name : List Char} (marked : nameMark.isPrefixOf name = true)
    (front rest : List (List Char)) : beforeName (front ++ name :: rest) = beforeName front := by
  induction front with
  | nil => simp [beforeName, marked]
  | cons line front ih =>
    simp only [beforeName, List.cons_append, List.takeWhile_cons] at ih ⊢
    rw [ih]

theorem forall_beforeName {front others behind : List (List Char)}
    (before : ∀ line ∈ front, isHarmless line = true)
    (after : ∀ line ∈ behind, isHarmless line = true) :
    (∀ line ∈ beforeName (front ++ (others ++ behind)), isHarmless line = true) ↔
      ∀ line ∈ beforeName others, isHarmless line = true := by
  induction front with
  | cons line front ih =>
    rw [List.forall_mem_cons] at before
    have kept : beforeName (line :: (front ++ (others ++ behind))) =
        line :: beforeName (front ++ (others ++ behind)) :=
      List.takeWhile_cons_of_pos (by simp [not_nameMark_of_isHarmless before.1])
    rw [List.cons_append, kept, List.forall_mem_cons, ih before.2]
    exact and_iff_right before.1
  | nil =>
    induction others with
    | nil =>
      refine iff_of_true (fun line hl => after line ?_) (fun line hl => absurd hl List.not_mem_nil)
      exact (List.takeWhile_sublist _).subset hl
    | cons line others ih =>
      cases marked : nameMark.isPrefixOf line with
      | true => simp [beforeName, marked]
      | false =>
        simp only [beforeName, List.nil_append, List.cons_append, List.takeWhile_cons, marked,
          Bool.not_false, if_true, List.forall_mem_cons] at ih ⊢
        rw [ih]

def cutLines (texts : List String) : List (List Char) :=
  texts.flatMap fun text => pieces text.toList

theorem cutLines_append (xs ys : List String) : cutLines (xs ++ ys) = cutLines xs ++ cutLines ys :=
  List.flatMap_append

theorem lines_unlines (texts : List String) :
    Text.lines (unlines texts).toList = cutLines texts := by
  have feeds := lines_flatMap_feed (texts.map String.toList)
  have text : (unlines texts).toList = (texts.map String.toList).flatMap (· ++ ['\n']) := by
    rw [unlines, String.toList_join, List.flatMap_map, List.flatMap_map]
    simp only [String.toList_append]
    rfl
  rw [text, feeds, List.flatMap_map, cutLines]

theorem cutLines_of_forall {texts : List String} (h : ∀ text ∈ texts, '\n' ∉ text.toList) :
    cutLines texts = texts.map String.toList := by
  rw [cutLines, List.map_eq_flatMap]
  exact List.flatMap_congr fun text ht => pieces_of_notMem (h text ht)

theorem feed_notMem_of_mem_docLines {help : Option String} {line : String}
    (h : line ∈ docLines help) : '\n' ∉ line.toList := by
  cases help with
  | none => exact absurd h List.not_mem_nil
  | some text =>
    obtain ⟨piece, hp, rfl⟩ := List.mem_map.1 h
    rw [String.toList_ofList]
    exact fun hc => feed_notMem_of_mem_lines hp ((List.rdropWhile_prefix _ _).subset hc)

theorem cutLines_help (help : Option String) :
    ∀ line ∈ cutLines ((docLines help).map ("// " ++ ·)), isHarmless line = true := by
  have plain : ∀ text ∈ (docLines help).map ("// " ++ ·), '\n' ∉ text.toList := by
    intro text ht
    obtain ⟨line, hl, rfl⟩ := List.mem_map.1 ht
    simpa using feed_notMem_of_mem_docLines hl
  rw [cutLines_of_forall plain, List.map_map]
  intro line hl
  obtain ⟨text, _, rfl⟩ := List.mem_map.1 hl
  simpa using isHarmless_comment (' ' :: text.toList)

theorem cutLines_address (tool : Tool) :
    ∃ first, (∀ line ∈ first, isHarmless line = true) ∧
      cutLines ((((nonEmpty? tool.officialUrl).map fun url =>
        "Official documentation: " ++ url).toList).map ("// " ++ ·)) =
          first ++ addressTail tool := by
  cases given : nonEmpty? tool.officialUrl with
  | none =>
    have empty : textOrEmpty tool.officialUrl = "" := by
      cases url : tool.officialUrl with
      | none => rfl
      | some text =>
        rw [url] at given
        simpa [nonEmpty?, Option.filter, textOrEmpty] using given
    exact ⟨[], List.forall_mem_nil _, by simp [cutLines, addressTail, empty, pieces, splitAt]⟩
  | some url =>
    have same : textOrEmpty tool.officialUrl = url := by
      rw [(Option.filter_eq_some_iff.1 given).1]
      rfl
    have cut := pieces_append (s := "// Official documentation: ".toList) (by simp) url.toList
    refine ⟨["// Official documentation: ".toList ++ (pieces url.toList).headD []], ?_, ?_⟩
    · exact List.forall_mem_singleton.2 (isHarmless_comment _)
    · rw [addressTail, same, List.singleton_append, ← cut]
      simp [cutLines]

theorem cutLines_preamble {tool : Tool} (plain : '\n' ∉ tool.repositoryUrl.toList) :
    ∃ front behind, cutLines (Header.ofTool tool).preamble =
        front ++ (addressTail tool ++ behind) ∧
      (∀ line ∈ front, isHarmless line = true) ∧ ∀ line ∈ behind, isHarmless line = true := by
  obtain ⟨first, comment, address⟩ := cutLines_address tool
  let origin := "// Generated by toolgen from " ++ tool.repositoryUrl ++ ". Do not edit."
  have alone : cutLines [origin] = [origin.toList] :=
    cutLines_of_forall (by simpa [origin] using plain)
  have named : isHarmless origin.toList = true := by
    simpa [origin] using isHarmless_comment _
  have imports : ∀ b : Bool, ∀ line ∈ cutLines ((if b then
      ["", "use std::collections::BTreeMap;"] else []) ++ [""]), isHarmless line = true := by
    decide
  refine ⟨origin.toList :: (cutLines ((docLines tool.help).map ("// " ++ ·)) ++ first), _, ?_, ?_,
    imports (Header.ofTool tool).hasMaps⟩
  · have parts : (Header.ofTool tool).preamble =
        [origin] ++ ((docLines tool.help).map ("// " ++ ·) ++
          ((((nonEmpty? tool.officialUrl).map fun url =>
            "Official documentation: " ++ url).toList).map ("// " ++ ·) ++
          ((if (Header.ofTool tool).hasMaps then
            ["", "use std::collections::BTreeMap;"] else []) ++ [""]))) := by
      simp only [Header.preamble, Header.ofTool, origin, List.map_append, List.append_assoc]
    rw [parts, cutLines_append, cutLines_append, cutLines_append, alone, address]
    simp only [List.cons_append, List.nil_append, List.append_assoc]
  · rw [List.forall_mem_cons, List.forall_mem_append]
    exact ⟨named, cutLines_help tool.help, comment⟩

theorem cutLines_source (s : Source) :
    ∃ name rest, cutLines s.lines = cutLines s.header.preamble ++ name :: rest ∧
      nameMark.isPrefixOf name = true := by
  have declared := pieces_append (s := "pub const TOOL_NAME: &str = ".toList) (by simp)
    (Text.literalOf s.header.toolName ++ ";").toList
  obtain ⟨more, parts⟩ : ∃ more, s.lines = s.header.preamble ++
      (("pub const TOOL_NAME: &str = " ++ Text.literalOf s.header.toolName ++ ";") :: more) := by
    simp only [Source.lines, Header.lines, List.map_cons, List.append_assoc, List.cons_append]
    exact ⟨_, rfl⟩
  rw [← String.toList_append, ← String.append_assoc] at declared
  have prefixed : nameMark <+: "pub const TOOL_NAME: &str = ".toList := by decide
  let behind := pieces (Text.literalOf s.header.toolName ++ ";").toList
  refine ⟨"pub const TOOL_NAME: &str = ".toList ++ behind.headD [], behind.tail ++ cutLines more,
    ?_, List.isPrefixOf_iff_prefix.2 (prefixed.trans (List.prefix_append _ _))⟩
  rw [parts, cutLines_append, cutLines, cutLines, List.flatMap_cons, declared, List.cons_append]
  rfl

theorem feed_notMem_repositoryUrl {options : LoadOptions} {t t₁ : Files.Tree} {file : Path}
    {tool : Tool} (loaded : Loading.load options t file = (.ok tool, t₁))
    (name : '\n' ∉ file.text.toList) (base : '\n' ∉ options.provenanceBase.toList) :
    '\n' ∉ tool.repositoryUrl.toList := by
  obtain ⟨parsed, _, _, rfl⟩ := Loading.load_eq_ok.1 loaded
  have front : '\n' ∉ (Tool.withoutSlashes options.provenanceBase).toList := by
    rw [Tool.withoutSlashes, String.toList_ofList]
    exact fun feed => base ((List.rdropWhile_prefix _ _).subset feed)
  have last : '\n' ∉ (file.fileName?.getD "").toList := by
    cases named : file.fileName? with
    | none => exact List.not_mem_nil
    | some last => exact fun feed => name (Path.mem_of_mem_fileName? named feed)
  change '\n' ∉ (Tool.withoutSlashes options.provenanceBase ++ "/" ++ file.fileName?.getD "").toList
  simp [front, last]

/-- In front of the name of a loaded tool: harmless lines around the rest of the official
address. -/
theorem beforeName_render {options : LoadOptions} {t t₁ : Files.Tree} {file : Path} {tool : Tool}
    (loaded : Loading.load options t file = (.ok tool, t₁)) (name : '\n' ∉ file.text.toList)
    (base : '\n' ∉ options.provenanceBase.toList) (calls : Nat) :
    ∃ front behind, beforeName (Text.lines (Renderer.wrapper.render calls tool).toList) =
        beforeName (front ++ (addressTail tool ++ behind)) ∧
      (∀ line ∈ front, isHarmless line = true) ∧ ∀ line ∈ behind, isHarmless line = true := by
  obtain ⟨front, behind, preamble, harmless⟩ :=
    cutLines_preamble (feed_notMem_repositoryUrl loaded name base)
  obtain ⟨mark, rest, lines, marked⟩ := cutLines_source (Source.ofTool tool)
  have text : Text.lines (Renderer.wrapper.render calls tool).toList =
      (front ++ (addressTail tool ++ behind)) ++ mark :: rest :=
    (lines_unlines _).trans (lines.trans (congrArg (· ++ mark :: rest) preamble))
  exact ⟨front, behind, by rw [text, beforeName_stop marked], harmless⟩

/-- In a wrapper of a loaded tool, all that stands in front of the name of the tool is empty, a
comment or the import of maps exactly when the lines of the official address behind its first one
are. -/
theorem harmless_iff {options : LoadOptions} {t t₁ : Files.Tree} {file : Path} {tool : Tool}
    (loaded : Loading.load options t file = (.ok tool, t₁)) (name : '\n' ∉ file.text.toList)
    (base : '\n' ∉ options.provenanceBase.toList) (calls : Nat) :
    (∀ line ∈ beforeName (Text.lines (Renderer.wrapper.render calls tool).toList),
        isHarmless line = true) ↔
      ∀ line ∈ beforeName (addressTail tool), isHarmless line = true := by
  obtain ⟨front, behind, text, before, after⟩ := beforeName_render loaded name base calls
  rw [text]
  exact forall_beforeName before after

def spreadText : String :=
  "[\"demo\",\"Pushes.\\nPulls.\",\"https://example.test\\nmod stray;\",null,null,null,[],[],[],[]]"

def spreadTool : Tool where
  name := "demo"
  help := some "Pushes.\nPulls."
  officialUrl := some "https://example.test\nmod stray;"

def spreadLoaded : Tool := Loading.soleTool spreadTool

set_option maxRecDepth 4000 in
theorem load_spread :
    Loading.load Loading.soleOptions (Loading.soleTree spreadText) Loading.soleFile =
      (.ok spreadLoaded, Loading.soleTree spreadText) :=
  Loading.load_sole (by rfl) (by rfl)

theorem harmless_iff_spread :
    Loading.load Loading.soleOptions (Loading.soleTree spreadText) Loading.soleFile =
        (.ok spreadLoaded, Loading.soleTree spreadText) ∧
      '\n' ∉ Loading.soleFile.text.toList ∧ '\n' ∉ Loading.soleOptions.provenanceBase.toList ∧
      ((∀ line ∈ beforeName (Text.lines (Renderer.wrapper.render 0 spreadLoaded).toList),
          isHarmless line = true) ↔
        ∀ line ∈ beforeName (addressTail spreadLoaded), isHarmless line = true) :=
  have name : '\n' ∉ Loading.soleFile.text.toList := by decide
  have base : '\n' ∉ Loading.soleOptions.provenanceBase.toList := by decide
  ⟨load_spread, name, base, harmless_iff load_spread name base 0⟩

/-- The description is accepted; a line of its address is code of the wrapper. -/
theorem load_strayLine :
    Loading.load Loading.soleOptions (Loading.soleTree spreadText) Loading.soleFile =
        (.ok spreadLoaded, Loading.soleTree spreadText) ∧
      ¬ ∀ line ∈ beforeName (Text.lines (Renderer.wrapper.render 0 spreadLoaded).toList),
        isHarmless line = true := by
  obtain ⟨front, behind, text, before, after⟩ :=
    beforeName_render load_spread (by decide) (by decide) 0
  refine ⟨load_spread, ?_⟩
  rw [text, forall_beforeName before after]
  decide

end Wrapper

end Toolwright
