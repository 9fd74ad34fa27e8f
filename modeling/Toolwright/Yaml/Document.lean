import Toolwright.Yaml.Token

/-!
Documents: the nodes of a YAML text in a row, collections between their beginning and their end. A
text that cannot be read to its end still has the nodes in front of the fault, and a reader meets
the fault only when it gets there.
-/

namespace Toolwright.Yaml

structure Scalar where
  text : List Char
  style : Style
  tag : Option (List Char)
  deriving DecidableEq, Repr

inductive Event where
  /-- All there is in a text without any node. -/
  | nothing
  | scalar (s : Scalar)
  | sequenceStart
  | sequenceEnd
  | mappingStart
  | mappingEnd
  /-- The node that an anchor names, by the number of the anchor. -/
  | alias (anchor : Nat)
  deriving DecidableEq, Repr

structure Document where
  events : List (Event × Mark)
  /-- For each number of an anchor, how many events stand before its node; the last one counts. -/
  anchors : List (Nat × Nat)
  /-- Why there are no more events. -/
  fault : Option Fault
  /-- Whether there is more text behind the document. -/
  followed : Bool

def Document.follow (d : Document) (anchor : Nat) : List (Event × Mark) :=
  match d.anchors.reverse.find? (·.1 == anchor) with
  | some (_, n) => d.events.drop n
  | none => []

/-- An event while its document is read: anchors are given by name. -/
inductive Part where
  | scalar (s : Scalar)
  | sequenceStart
  | sequenceEnd
  | mappingStart
  | mappingEnd
  | alias (name : List Char)

structure Parser where
  tokens : List Token
  /-- Why there are no more tokens. -/
  fault : Option Fault
  /-- What was read, the last one first, with the anchors. -/
  parts : List (Part × Option (List Char) × Mark)
  /-- What the handles of tags stand for. -/
  handles : List (List Char × List Char)

/-- Reading tokens; what was read before a fault is kept. -/
abbrev Parsing := ExceptT Fault (StateM Parser)

namespace Parser

def peek : Parsing Token := do
  let p ← get
  match p.tokens with
  | t :: _ => pure t
  | [] => throw (p.fault.getD (.at_ .endOfStream .start none))

def skip : Parsing Unit := modify fun p => { p with tokens := p.tokens.drop 1 }

def emit (part : Part) (mark : Mark) (anchor : Option (List Char)) : Parsing Unit :=
  modify fun p => { p with parts := (part, anchor, mark) :: p.parts }

def emitEmpty (mark : Mark) : Parsing Unit := emit (.scalar ⟨[], .plain, none⟩) mark none

def failAt {α : Type} (problem : Problem) (mark : Mark) (context : Context) (begun : Mark) :
    Parsing α :=
  throw (.at_ problem mark (some (context, begun)))

/-- Anchor and tag in front of a node, in either order; the tag with its place. -/
def properties : Parsing (Option (List Char) × Option (TagText × Mark)) := do
  let first ← peek
  match first.kind with
  | .anchor name => do
    skip
    let second ← peek
    match second.kind with
    | .tag t => do
      skip
      pure (some name, some (t, second.start))
    | _ => pure (some name, none)
  | .tag t => do
    skip
    let second ← peek
    match second.kind with
    | .anchor name => do
      skip
      pure (some name, some (t, first.start))
    | _ => pure (none, some (t, first.start))
  | _ => pure (none, none)

def resolve (t : TagText) (mark begun : Mark) : Parsing (List Char) := do
  if t.handle = [] then pure t.suffix
  else
    match (← get).handles.find? (·.1 == t.handle) with
    | some (_, meaning) => pure (meaning ++ t.suffix)
    | none => failAt .undefinedHandle mark .node begun

/-- An anchor or a tag without a node stands for an empty one. -/
def bare (block : Bool) (begun : Mark) (anchor tag : Option (List Char)) (t : Token) :
    Parsing Unit :=
  if anchor.isSome || tag.isSome then emit (.scalar ⟨[], .plain, tag⟩) begun anchor
  else failAt .contentExpected t.start (if block then .blockNode else .flowNode) begun

/-- The comma in front of an entry that is not the first one. -/
def comma (first : Bool) (close : Token.Kind) (p : Problem) (context : Context) (begun : Mark) :
    Parsing Unit := do
  let t ← peek
  if first || t.kind == close then pure ()
  else if t.kind == .comma then skip
  else failAt p t.start context begun

mutual

/-- A node. A sequence may begin in the column of the key above it: `indentless`. -/
def node : Nat → Bool → Bool → Parsing Unit
  | 0, _, _ => pure ()
  | fuel + 1, block, indentless => do
    let first ← peek
    let begun := first.start
    match first.kind with
    | .alias name => do
      skip
      emit (.alias name) begun none
    | _ => do
      let (anchor, tag) ← properties
      let tag ← tag.mapM fun (t, mark) => resolve t mark begun
      let t ← peek
      match t.kind with
      | .dash =>
        if indentless then
          emit .sequenceStart begun anchor
          dashes fuel
        else bare block begun anchor tag t
      | .scalar text style => do
        emit (.scalar ⟨text, style, tag⟩) begun anchor
        skip
      | .flowSequence => do
        emit .sequenceStart begun anchor
        skip
        flowSequence fuel true t.start
      | .flowMapping => do
        emit .mappingStart begun anchor
        skip
        flowMapping fuel true t.start
      | .blockSequence =>
        if block then
          emit .sequenceStart begun anchor
          skip
          blockSequence fuel t.start
        else bare block begun anchor tag t
      | .blockMapping =>
        if block then
          emit .mappingStart begun anchor
          skip
          blockMapping fuel t.start
        else bare block begun anchor tag t
      | _ => bare block begun anchor tag t

/-- A node, or an empty one if one of the given tokens stands there. -/
def nodeUnless : Nat → List Token.Kind → Bool → Bool → Option Mark → Parsing Unit
  | 0, _, _, _, _ => pure ()
  | fuel + 1, stops, block, indentless, empty => do
    let t ← peek
    if stops.contains t.kind then emitEmpty (empty.getD t.start)
    else node fuel block indentless

/-- Entries of a sequence that is a block of its own, and its end. -/
def blockSequence : Nat → Mark → Parsing Unit
  | 0, _ => pure ()
  | fuel + 1, begun => do
    let t ← peek
    match t.kind with
    | .dash => do
      skip
      nodeUnless fuel [.dash, .blockEnd] true false (some t.finish)
      blockSequence fuel begun
    | .blockEnd => do
      emit .sequenceEnd t.start none
      skip
    | _ => failAt .dashExpected t.start .blockCollection begun

/-- Entries of a sequence in the column of the key above it. -/
def dashes : Nat → Parsing Unit
  | 0 => pure ()
  | fuel + 1 => do
    let t ← peek
    match t.kind with
    | .dash => do
      skip
      nodeUnless fuel [.dash, .key, .value, .blockEnd] true false (some t.finish)
      dashes fuel
    | _ => emit .sequenceEnd t.start none

/-- Entries of a mapping that is a block, and its end. -/
def blockMapping : Nat → Mark → Parsing Unit
  | 0, _ => pure ()
  | fuel + 1, begun => do
    let t ← peek
    match t.kind with
    | .key => do
      skip
      nodeUnless fuel [.key, .value, .blockEnd] true true (some t.finish)
      let v ← peek
      match v.kind with
      | .value => do
        skip
        nodeUnless fuel [.key, .value, .blockEnd] true true (some v.finish)
      | _ => emitEmpty v.start
      blockMapping fuel begun
    | .blockEnd => do
      emit .mappingEnd t.start none
      skip
    | _ => failAt .keyExpected t.start .blockMapping begun

def flowSequence : Nat → Bool → Mark → Parsing Unit
  | 0, _, _ => pure ()
  | fuel + 1, first, begun => do
    comma first .flowSequenceEnd .commaOrBracketExpected .flowSequence begun
    let t ← peek
    match t.kind with
    | .key => do
      emit .mappingStart t.start none
      skip
      flowPair fuel
      flowSequence fuel false begun
    | .flowSequenceEnd => do
      emit .sequenceEnd t.start none
      skip
    | _ => do
      node fuel false false
      flowSequence fuel false begun

def flowPair : Nat → Parsing Unit
  | 0 => pure ()
  | fuel + 1 => do
    let t ← peek
    if [Token.Kind.value, .comma, .flowSequenceEnd].contains t.kind then
      skip
      emitEmpty t.finish
    else node fuel false false
    flowValue fuel [.comma, .flowSequenceEnd]
    emit .mappingEnd (← peek).start none

def flowValue : Nat → List Token.Kind → Parsing Unit
  | 0, _ => pure ()
  | fuel + 1, stops => do
    let t ← peek
    if t.kind == .value then
      skip
      nodeUnless fuel stops false false none
    else emitEmpty t.start

def flowMapping : Nat → Bool → Mark → Parsing Unit
  | 0, _, _ => pure ()
  | fuel + 1, first, begun => do
    comma first .flowMappingEnd .commaOrBraceExpected .flowMapping begun
    let t ← peek
    match t.kind with
    | .key => do
      skip
      nodeUnless fuel [.value, .comma, .flowMappingEnd] false false none
      flowValue fuel [.comma, .flowMappingEnd]
      flowMapping fuel false begun
    | .flowMappingEnd => do
      emit .mappingEnd t.start none
      skip
    | _ => do
      node fuel false false
      emitEmpty (← peek).start
      flowMapping fuel false begun

end

def isDirective : Token.Kind → Bool
  | .version _ _ => true
  | .tagMeaning _ _ => true
  | _ => false

def directives : Nat → Bool → Parsing Unit
  | 0, _ => pure ()
  | fuel + 1, versioned => do
    let t ← peek
    match t.kind with
    | .version major minor =>
      if versioned then throw (.at_ .secondVersion t.start none)
      else if major = 1 ∧ (minor = 1 ∨ minor = 2) then
        skip
        directives fuel true
      else throw (.at_ .otherVersion t.start none)
    | .tagMeaning handle meaning =>
      if (← get).handles.any (·.1 == handle) then throw (.at_ .secondHandle t.start none)
      else
        modify fun p => { p with handles := p.handles ++ [(handle, meaning)] }
        skip
        directives fuel versioned
    | _ => pure ()

/-- Handles that stand for something in every document, unless it says otherwise. -/
def standardHandles : List (List Char × List Char) :=
  [(['!'], ['!']), (['!', '!'], "tag:yaml.org,2002:".toList)]

def addStandardHandles : Parsing Unit :=
  modify fun p => { p with handles := p.handles ++ standardHandles }

/-- A document with the mark behind it. The answer tells whether there was one. -/
def document (fuel : Nat) : Parsing Bool := do
  let t ← peek
  if t.kind == .streamEnd then pure false
  else
    if isDirective t.kind || t.kind == .documentStart then
      directives fuel false
      addStandardHandles
      let t ← peek
      if t.kind == .documentStart then skip else throw (.at_ .documentStartExpected t.start none)
      let t ← peek
      if isDirective t.kind ||
          [Token.Kind.documentStart, .documentEnd, .streamEnd].contains t.kind then
        emitEmpty t.start
      else node fuel true false
    else
      addStandardHandles
      node fuel true false
    let t ← peek
    if t.kind == .documentEnd then skip
    pure true

/-- Whether there is no more than marks of ended documents. -/
def isFinished (p : Parser) : Bool :=
  match p.tokens.dropWhile (·.kind == .documentEnd) with
  | t :: _ => t.kind == .streamEnd
  | [] => false

end Parser

/-- What is known of the anchors while a document is gone through. -/
structure Anchors where
  /-- The number of each name; of two entries for one name the first counts. -/
  numbers : List (List Char × Nat)
  /-- Where the nodes are, by the numbers of their anchors. -/
  places : List (Nat × Nat)

namespace Anchors

/-- An anchor gets as number how many names there are. A name that is given again gets a new number
and is still one name, so that the next new name shares its number. -/
def add (a : Anchors) (name : List Char) (place : Nat) : Anchors :=
  let number := ((a.numbers.map (·.1)).eraseDups).length
  ⟨(name, number) :: a.numbers, a.places ++ [(number, place)]⟩

def number? (a : Anchors) (name : List Char) : Option Nat :=
  (a.numbers.find? (·.1 == name)).map (·.2)

end Anchors

/-- Give each alias the number of its anchor, up to the first that has none. -/
def resolveAliases : Anchors → Nat → List (Part × Option (List Char) × Mark) →
    List (Event × Mark) × Anchors × Option Fault
  | a, _, [] => ([], a, none)
  | a, n, (part, anchor, mark) :: rest =>
    let go := fun (event : Event) =>
      let a := match anchor with
        | some name => a.add name n
        | none => a
      let (events, last, fault) := resolveAliases a (n + 1) rest
      ((event, mark) :: events, last, fault)
    match part with
    | .alias name =>
      match a.number? name with
      | some number => go (.alias number)
      | none => ([], a, some (.unknownAnchor mark))
    | .scalar s => go (.scalar s)
    | .sequenceStart => go .sequenceStart
    | .sequenceEnd => go .sequenceEnd
    | .mappingStart => go .mappingStart
    | .mappingEnd => go .mappingEnd

def Document.read (text : List Char) : Document :=
  let (tokens, fault) := Token.scan text
  let (result, p) := (Parser.document (8 * tokens.length + 16)).run ⟨tokens, fault, [], []⟩
  let (events, anchors, unknown) := resolveAliases ⟨[], []⟩ 0 p.parts.reverse
  let fault :=
    match unknown, result with
    | some f, _ => some f
    | none, .error f => some f
    | none, .ok _ => none
  match result with
  | .ok false => ⟨[(.nothing, .start)], [], none, false⟩
  | _ => ⟨events, anchors.places, fault, !p.isFinished⟩

end Toolwright.Yaml
