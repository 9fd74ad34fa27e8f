import Toolwright.Html.Draft.Formatting

/-!
SVG and MathML inside a document. Names of SVG keep their capitals, some attributes belong to a
vocabulary of their own, and a tag of HTML that cannot stand there ends the foreign part.
-/

namespace Toolwright.Html.Draft

def svgNames : List String := [
  "altGlyph", "altGlyphDef", "altGlyphItem", "animateColor", "animateMotion", "animateTransform",
  "clipPath", "feBlend", "feColorMatrix", "feComponentTransfer", "feComposite",
  "feConvolveMatrix", "feDiffuseLighting", "feDisplacementMap", "feDistantLight", "feDropShadow",
  "feFlood", "feFuncA", "feFuncB", "feFuncG", "feFuncR", "feGaussianBlur", "feImage", "feMerge",
  "feMergeNode", "feMorphology", "feOffset", "fePointLight", "feSpecularLighting", "feSpotLight",
  "feTile", "feTurbulence", "foreignObject", "glyphRef", "linearGradient", "radialGradient",
  "textPath"]

def svgAttributes : List String := [
  "attributeName", "attributeType", "baseFrequency", "baseProfile", "calcMode", "clipPathUnits",
  "diffuseConstant", "edgeMode", "filterUnits", "glyphRef", "gradientTransform", "gradientUnits",
  "kernelMatrix", "kernelUnitLength", "keyPoints", "keySplines", "keyTimes", "lengthAdjust",
  "limitingConeAngle", "markerHeight", "markerUnits", "markerWidth", "maskContentUnits",
  "maskUnits", "numOctaves", "pathLength", "patternContentUnits", "patternTransform",
  "patternUnits", "pointsAtX", "pointsAtY", "pointsAtZ", "preserveAlpha", "preserveAspectRatio",
  "primitiveUnits", "refX", "refY", "repeatCount", "repeatDur", "requiredExtensions",
  "requiredFeatures", "specularConstant", "specularExponent", "spreadMethod", "startOffset",
  "stdDeviation", "stitchTiles", "surfaceScale", "systemLanguage", "tableValues", "targetX",
  "targetY", "textLength", "viewBox", "viewTarget", "xChannelSelector", "yChannelSelector",
  "zoomAndPan"]

def small (s : String) : String := String.ofList (s.toList.map Char.toLower)

/-- The listed name that differs from the given one in capitals only, or the given one. -/
def withCapitals (names : List String) (name : String) : String :=
  (names.find? fun n => small n == name).getD name

/-- Attributes that belong to a vocabulary of their own. -/
def linkAttributes : List String :=
  ["actuate", "arcrole", "href", "role", "show", "title", "type"]

def foreignAttribute (name value : String) : Attribute :=
  match linkAttributes.find? fun n => "xlink:" ++ n == name with
  | some n => ⟨.xlink, n, value⟩
  | none =>
    match name with
    | "xml:lang" => ⟨.xml, "lang", value⟩
    | "xml:space" => ⟨.xml, "space", value⟩
    | "xmlns" => ⟨.xmlns, "xmlns", value⟩
    | "xmlns:xlink" => ⟨.xmlns, "xlink", value⟩
    | _ => ⟨.none, name, value⟩

def attributesIn (space : Space) (tag : Tag) : List Attribute :=
  tag.attrs.map fun (name, value) =>
    match space with
    | .svg => foreignAttribute (withCapitals svgAttributes name) value
    | .mathml => foreignAttribute (if name = "definitionurl" then "definitionURL" else name) value
    | .html => foreignAttribute name value

/-- Insert an element of another vocabulary; it stays open unless its tag closes itself. -/
def insertForeign (d : Draft) (space : Space) (name : String) (tag : Tag) : Draft :=
  if tag.selfClosing then d.insertElement space name (attributesIn space tag)
  else d.openElement space name (attributesIn space tag)

def enterForeign (d : Draft) (space : Space) (tag : Tag) : Draft :=
  d.insertForeign space tag.name tag

/-- Whether an input falls under the rules for foreign content. -/
def isForeign (d : Draft) (input : Input) : Bool :=
  match d.stack with
  | [] => false
  | n :: _ =>
    let e := d.element n
    if e.space = .html then false
    else
      match input with
      | .done => false
      | .char _ => !holdsMathText e && !holdsHtml e
      | .start tag =>
        !(holdsMathText e && tag.name ≠ "mglyph" && tag.name ≠ "malignmark") && !holdsHtml e &&
          !(e.space = .mathml && e.name == "annotation-xml" && tag.name == "svg")
      | .close _ => true
      | .comment => true

def endsForeign : List String := [
  "b", "big", "blockquote", "body", "br", "center", "code", "dd", "div", "dl", "dt", "em",
  "embed", "h1", "h2", "h3", "h4", "h5", "h6", "head", "hr", "i", "img", "li", "listing", "menu",
  "meta", "nobr", "ol", "p", "pre", "ruby", "s", "small", "span", "strong", "strike", "sub",
  "sup", "table", "tt", "u", "ul", "var"]

def leavesForeign (tag : Tag) : Bool :=
  endsForeign.contains tag.name ||
    (tag.name == "font" && tag.attrs.any fun a => ["color", "face", "size"].contains a.1)

/-- Close what is open up to HTML or to an element that holds it. -/
def popForeign (d : Draft) : Draft :=
  { d with
    stack := d.stack.dropWhile fun n =>
      let e := d.element n
      !(e.space = .html || holdsMathText e || holdsHtml e) }

/-- What an end tag does in foreign content: the elements that stay open, or nothing when the rules
of HTML have to decide. The root is never closed. -/
def closeForeign (d : Draft) (name : String) : Bool → List Nat → Option (List Nat)
  | _, [] => some d.stack
  | _, [_] => some d.stack
  | first, n :: rest =>
    let e := d.element n
    if !first && e.space = .html then none
    else if small e.name == small name then some rest
    else closeForeign d name false rest

/-- The rules for foreign content. `ruled` applies the rules of the mode. -/
def foreign (ruled : Draft → Input → Outcome) (d : Draft) (input : Input) : Outcome :=
  match input with
  | .char c =>
    if c = '\x00' then .taken (d.insertChar Reference.replacement)
    else
      let d := if Token.isBlankChar c then d else d.forbidFrameset
      .taken (d.insertChar c)
  | .start tag =>
    if leavesForeign tag then ruled d.popForeign input
    else
      match d.stack with
      | n :: _ =>
        let space := (d.element n).space
        let name := if space = .svg then withCapitals svgNames tag.name else tag.name
        .taken (d.insertForeign space name tag)
      | [] => .taken d
  | .close name =>
    if name = "br" ∨ name = "p" then ruled d.popForeign input
    else
      match d.closeForeign name true d.stack with
      | some stack => .taken { d with stack := stack }
      | none => ruled d input
  | .comment => .taken d
  | .done => .taken d

end Toolwright.Html.Draft
