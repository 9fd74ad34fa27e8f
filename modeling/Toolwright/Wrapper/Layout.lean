import Toolwright.Wrapper.Item

/-!
The text of a wrapper. Every part is a list of lines; a block puts its body four blanks further in
between a line that opens it and one that closes it. Items are separated by an empty line.
-/

namespace Toolwright.Wrapper

/-- One line, four blanks further in; an empty line stays empty. -/
def indent (line : String) : String := if line.isEmpty then line else "    " ++ line

/-- A head, its body in braces and what follows the closing brace. -/
def blockThen (tail head : String) (body : List String) : List String :=
  (head ++ " \x7b") :: (body.map indent ++ ["\x7d" ++ tail])

def block (head : String) (body : List String) : List String := blockThen "" head body

def docComment (doc : List String) : List String := doc.map ("/// " ++ ·)

def literalList (texts : List String) : String :=
  String.join (texts.map fun t => Text.literalOf t ++ ", ")

structure Method where
  doc : List String
  name : String
  parameters : String
  result : String
  body : List String

def Method.lines (m : Method) : List String :=
  docComment m.doc ++
    block ("pub fn " ++ m.name ++ "(" ++ m.parameters ++ ") -> " ++ m.result) m.body

def TypeShape.storage : TypeShape → String
  | .scalar e => "Option<" ++ e.type ++ ">"
  | .bool => "Option<bool>"
  | .list e => "Vec<" ++ e.type ++ ">"
  | .map e => "BTreeMap<String, " ++ e.type ++ ">"

def TypeShape.view : TypeShape → String
  | .scalar e => "Option<&" ++ e.type ++ ">"
  | .bool => "Option<bool>"
  | .list e => "&[" ++ e.type ++ "]"
  | .map e => "&BTreeMap<String, " ++ e.type ++ ">"

def viewBody (f : Field) : String :=
  match f.shape with
  | .scalar _ => "self." ++ f.ident ++ ".as_ref()"
  | .bool => "self." ++ f.ident
  | .list _ => "&self." ++ f.ident
  | .map _ => "&self." ++ f.ident

/-- The type of a value that is passed in; texts are taken in any form. -/
def Element.parameter (e : Element) : String :=
  if e.type = "String" then "impl Into<String>" else e.type

/-- A value that was passed in, as the element itself. -/
def Element.passed (e : Element) : String := if e.type = "String" then "value.into()" else "value"

/-- A method that takes the object, does one thing to it and gives it back. -/
def fluent (name parameters step : String) : Method :=
  ⟨[], name, "mut self" ++ parameters, "Self", [step, "self"]⟩

def Field.getterMethod (f : Field) : Method :=
  ⟨f.doc, f.getter, "&self", f.shape.view, [viewBody f]⟩

/-- Methods that change a field, whether or not it may be set. -/
def Field.mutators (f : Field) : List Method :=
  let self := "self." ++ f.ident
  match f.shape with
  | .scalar e => [
      fluent ("set_" ++ f.snake) (", value: " ++ e.parameter)
      (self ++ " = Some(" ++ e.passed ++ ");"),
      fluent ("reset_" ++ f.snake) "" (self ++ " = None;")]
  | .bool => [
      fluent ("set_" ++ f.snake) ", value: bool" (self ++ " = Some(value);"),
      fluent ("reset_" ++ f.snake) "" (self ++ " = None;"),
      fluent ("enable_" ++ f.snake) "" (self ++ " = Some(true);"),
      fluent ("disable_" ++ f.snake) "" (self ++ " = Some(false);"),
      fluent ("toggle_" ++ f.snake) "" (self ++ " = Some(!" ++ self ++ ".unwrap_or(false));")]
  | .list e => [
      fluent ("set_" ++ f.snake) (", values: impl IntoIterator<Item = " ++ e.type ++ ">")
        (self ++ " = values.into_iter().collect();"),
      fluent ("add_" ++ f.snake) (", value: " ++ e.parameter)
      (self ++ ".push(" ++ e.passed ++ ");"), fluent ("clear_" ++ f.snake) "" (self ++ ".clear();")]
  | .map e => [
      fluent ("set_" ++ f.snake) (", values: BTreeMap<String, " ++ e.type ++ ">")
        (self ++ " = values;"),
      fluent ("add_" ++ f.snake) (", key: impl Into<String>, value: " ++ e.parameter)
        (self ++ ".insert(key.into(), " ++ e.passed ++ ");"),
      fluent ("remove_" ++ f.snake) ", key: &str" (self ++ ".remove(key);"),
      fluent ("clear_" ++ f.snake) "" (self ++ ".clear();")]

def Field.methods (f : Field) : List Method :=
  f.getterMethod :: (if f.settable then f.mutators else [])

def pushStatement (format key value : String) : String :=
  "push_formatted(&mut args, " ++ Text.literalOf format ++ ", " ++ key ++ ", " ++ value ++ ");"

def Push.lines (p : Push) : List String :=
  let self := "self." ++ p.field
  match p.guard with
  | .flag => block ("if " ++ self ++ " == Some(true)") [pushStatement p.format "\"\"" "\"true\""]
  | .valued =>
    block ("if let Some(value) = &" ++ self) [pushStatement p.format "\"\"" "&value.to_string()"]
  | .eachItem =>
    block ("for value in &" ++ self) [pushStatement p.format "\"\"" "&value.to_string()"]
  | .eachEntry =>
    block ("for (key, value) in &" ++ self) [pushStatement p.format "key" "&value.to_string()"]

/-- The method that lists the command-line arguments of a settings class. -/
def argumentsMethod (definitive : Option String) (pushes : List Push) : Method where
  doc := ["Command-line arguments in declaration order."]
  name := "arguments"
  parameters := "&self"
  result := "Vec<String>"
  body :=
    ["let mut args = Vec::new();"] ++
    (definitive.map fun a => pushStatement a "\"\"" "\"\"").toList ++
    pushes.flatMap Push.lines ++
    ["args"]

def Class.methods (c : Class) : List Method :=
  c.fields.flatMap Field.methods ++
    match c.kind with
    | .data => []
    | .settings definitive => [argumentsMethod definitive (c.fields.filterMap (·.push?))]

def Class.lines (c : Class) : List String :=
  docComment c.doc ++
  ["#[derive(Debug, Clone, PartialEq)]"] ++
  block ("pub struct " ++ c.name)
    (c.fields.map fun f => f.ident ++ ": " ++ f.shape.storage ++ ",") ++
  [""] ++
  block ("impl Default for " ++ c.name)
    (block "fn default() -> Self"
      (block "Self" (c.fields.map fun f => f.ident ++ ": " ++ f.default.source ++ ","))) ++
  [""] ++
  block ("impl " ++ c.name)
    (("pub const SECRET_PROPERTIES: &'static [&'static str] = &[" ++
        literalList c.secrets ++ "];") ::
      c.methods.flatMap fun m => "" :: m.lines)

def EnumerationItem.lines (e : EnumerationItem) : List String :=
  docComment e.doc ++
  ["#[derive(Debug, Clone, Copy, PartialEq, Eq, Hash)]"] ++
  block ("pub enum " ++ e.name) (e.variants.map fun v => v.ident ++ ",") ++
  [""] ++
  block ("impl " ++ e.name)
    ([ "pub const VALUES: &'static [&'static str] = &[" ++
          literalList (e.variants.map (·.value)) ++ "];",
        ""] ++
      block "pub fn as_str(&self) -> &'static str"
        (if e.variants.isEmpty then ["match *self \x7b\x7d"]
        else block "match self"
          (e.variants.map fun v =>
            "Self::" ++ v.ident ++ " => " ++ Text.literalOf v.value ++ ","))) ++
  [""] ++
  block ("impl std::fmt::Display for " ++ e.name)
    (block "fn fmt(&self, f: &mut std::fmt::Formatter<'_>) -> std::fmt::Result"
      ["f.write_str(self.as_str())"])

def TaskFunction.lines (t : TaskFunction) : List String :=
  docComment t.doc ++
  block ("pub fn " ++ t.name ++ "(configure: impl FnOnce(" ++ t.settings ++ ") -> " ++
      t.settings ++ ") -> Vec<String>")
    ["configure(" ++ t.settings ++ "::default()).arguments()"]

def Item.lines : Item → List String
  | .enumeration e => e.lines
  | .cls c => c.lines
  | .task t => t.lines

/-- The function that splits a format at white space and fills in key and value. -/
def pushFunction : List String :=
  block "fn push_formatted(args: &mut Vec<String>, format: &str, key: &str, value: &str)" [
    "args.extend(",
    "    format",
    "        .split_whitespace()",
    "        .map(|part| part.replace(\"\x7bkey\x7d\", key).replace(\"\x7bvalue\x7d\", value)),",
    ");"]

def Header.preamble (h : Header) : List String :=
  ["// Generated by toolgen from " ++ h.repositoryUrl ++ ". Do not edit."] ++
  h.doc.map ("// " ++ ·) ++
  (if h.hasMaps then ["", "use std::collections::BTreeMap;"] else []) ++
  [""]

def Header.lines (h : Header) : List String :=
  h.preamble ++
  (⟨"TOOL_NAME", h.toolName⟩ :: h.constants).map (fun c =>
    "pub const " ++ c.name ++ ": &str = " ++ Text.literalOf c.value ++ ";") ++
  [""] ++
  pushFunction

def Source.lines (s : Source) : List String :=
  s.header.lines ++ s.items.flatMap fun item => "" :: item.lines

def unlines (lines : List String) : String := String.join (lines.map (· ++ "\n"))

def Source.text (s : Source) : String := unlines s.lines

end Toolwright.Wrapper
