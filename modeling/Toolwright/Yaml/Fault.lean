/-!
Places in a YAML text, and what can be wrong there. A fault has a problem, the place where it was
seen and, mostly, what was being read and where that began.
-/

namespace Toolwright.Yaml

structure Mark where
  index : Nat
  line : Nat
  column : Nat
  deriving DecidableEq, Repr

def Mark.start : Mark := ⟨0, 0, 0⟩

def Mark.isOrigin (m : Mark) : Bool := m.line == 0 && m.column == 0

def Mark.text (m : Mark) : String :=
  "line " ++ toString (m.line + 1) ++ " column " ++ toString (m.column + 1)

/-- A place as it ends a message; the beginning of the text is not told. -/
def Mark.place (m : Mark) : String := if m.isOrigin then "" else " at " ++ m.text

inductive Problem where
  | keyUnfinished
  | entryMisplaced
  | keyMisplaced
  | valueMisplaced
  | noToken
  | unknownDirective
  | lineEndExpected
  | directiveNameExpected
  | directiveNameCharacter
  | versionPointExpected
  | versionTooLong
  | versionExpected
  | blankExpected
  | blankOrBreakExpected
  | anchorNameExpected
  | tagCloseExpected
  | tagMarkExpected
  | tagUriExpected
  | uriEscapeExpected
  | uriEscapeLead
  | uriEscapeTrail
  | zeroIndentation
  | tabInIndentation
  | documentMark
  | endOfStream
  | unknownEscape
  | hexExpected
  | escapeOutOfRange
  | colonInPlain
  | tabInPlain
  | documentStartExpected
  | contentExpected
  | dashExpected
  | keyExpected
  | commaOrBracketExpected
  | commaOrBraceExpected
  | undefinedHandle
  | secondVersion
  | otherVersion
  | secondHandle
  deriving DecidableEq, Repr

def Problem.message : Problem → String
  | .keyUnfinished => "could not find expected ':'"
  | .entryMisplaced => "block sequence entries are not allowed in this context"
  | .keyMisplaced => "mapping keys are not allowed in this context"
  | .valueMisplaced => "mapping values are not allowed in this context"
  | .noToken => "found character that cannot start any token"
  | .unknownDirective => "found unknown directive name"
  | .lineEndExpected => "did not find expected comment or line break"
  | .directiveNameExpected => "could not find expected directive name"
  | .directiveNameCharacter => "found unexpected non-alphabetical character"
  | .versionPointExpected => "did not find expected digit or '.' character"
  | .versionTooLong => "found extremely long version number"
  | .versionExpected => "did not find expected version number"
  | .blankExpected => "did not find expected whitespace"
  | .blankOrBreakExpected => "did not find expected whitespace or line break"
  | .anchorNameExpected => "did not find expected alphabetic or numeric character"
  | .tagCloseExpected => "did not find the expected '>'"
  | .tagMarkExpected => "did not find expected '!'"
  | .tagUriExpected => "did not find expected tag URI"
  | .uriEscapeExpected => "did not find URI escaped octet"
  | .uriEscapeLead => "found an incorrect leading UTF-8 octet"
  | .uriEscapeTrail => "found an incorrect trailing UTF-8 octet"
  | .zeroIndentation => "found an indentation indicator equal to 0"
  | .tabInIndentation => "found a tab character where an indentation space is expected"
  | .documentMark => "found unexpected document indicator"
  | .endOfStream => "found unexpected end of stream"
  | .unknownEscape => "found unknown escape character"
  | .hexExpected => "did not find expected hexdecimal number"
  | .escapeOutOfRange => "found invalid Unicode character escape code"
  | .colonInPlain => "found unexpected ':'"
  | .tabInPlain => "found a tab character that violates indentation"
  | .documentStartExpected => "did not find expected <document start>"
  | .contentExpected => "did not find expected node content"
  | .dashExpected => "did not find expected '-' indicator"
  | .keyExpected => "did not find expected key"
  | .commaOrBracketExpected => "did not find expected ',' or ']'"
  | .commaOrBraceExpected => "did not find expected ',' or '\x7d'"
  | .undefinedHandle => "found undefined tag handle"
  | .secondVersion => "found duplicate %YAML directive"
  | .otherVersion => "found incompatible YAML document"
  | .secondHandle => "found duplicate %TAG directive"

inductive Context where
  | nextToken
  | simpleKey
  | directive
  | versionDirective
  | tagDirective
  | tagDirectiveMark
  | tagDirectiveHandle
  | tagDirectiveUri
  | anchor
  | alias
  | tag
  | tagUri
  | blockScalar
  | quotedScalar
  | quotedEscape
  | plainScalar
  | node
  | blockNode
  | flowNode
  | blockCollection
  | blockMapping
  | flowSequence
  | flowMapping
  deriving DecidableEq, Repr

def Context.message : Context → String
  | .nextToken => "while scanning for the next token"
  | .simpleKey => "while scanning a simple key"
  | .directive => "while scanning a directive"
  | .versionDirective => "while scanning a %YAML directive"
  | .tagDirective => "while scanning a %TAG directive"
  | .tagDirectiveMark => "while scanning a tag directive"
  | .tagDirectiveHandle => "while parsing a tag directive"
  | .tagDirectiveUri => "while parsing a %TAG directive"
  | .anchor => "while scanning an anchor"
  | .alias => "while scanning an alias"
  | .tag => "while scanning a tag"
  | .tagUri => "while parsing a tag"
  | .blockScalar => "while scanning a block scalar"
  | .quotedScalar => "while scanning a quoted scalar"
  | .quotedEscape => "while parsing a quoted scalar"
  | .plainScalar => "while scanning a plain scalar"
  | .node => "while parsing a node"
  | .blockNode => "while parsing a block node"
  | .flowNode => "while parsing a flow node"
  | .blockCollection => "while parsing a block collection"
  | .blockMapping => "while parsing a block mapping"
  | .flowSequence => "while parsing a flow sequence"
  | .flowMapping => "while parsing a flow mapping"

inductive Fault where
  /-- A control character; its place is counted in bytes. -/
  | control (offset : Nat)
  | unknownAnchor (mark : Mark)
  | secondDocument
  | at_ (problem : Problem) (mark : Mark) (context : Option (Context × Mark))
  deriving DecidableEq, Repr

def Fault.message : Fault → String
  | .control offset =>
    "control characters are not allowed" ++
      (if offset = 0 then "" else " at position " ++ toString offset)
  | .unknownAnchor mark => "unknown anchor" ++ mark.place
  | .secondDocument => "deserializing from YAML containing more than one document is not supported"
  | .at_ problem mark context =>
    problem.message ++ mark.place ++
      match context with
      | none => ""
      | some (c, begun) =>
        ", " ++ c.message ++
          (if begun.isOrigin ∨ (begun.line = mark.line ∧ begun.column = mark.column) then ""
          else " at " ++ begun.text)

end Toolwright.Yaml
