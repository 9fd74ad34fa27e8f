import Toolwright.Json.Reader

/-!
Reading records. A record is written as an object, its members in any order and unknown keys
passed over, or as a list of its members in their fixed order. A `Form` says which members there
are, how each is read into the partial record `ρ`, and how a partial record is completed.
-/

namespace Toolwright.Json

structure Member (ρ : Type) where
  key : String
  /-- Whether a record without the member is refused. -/
  required : Bool
  /-- Whether the member has been read already. -/
  filled : ρ → Bool
  /-- Read the member's value into the record; the number says how many brackets may be open
  inside it. -/
  read : Nat → ρ → Reader ρ

structure Form (ρ α : Type) where
  /-- What messages call the record. -/
  title : String
  members : List (Member ρ)
  blank : ρ
  /-- The complete record; `none` only when a required member is not filled. -/
  complete : ρ → Option α

namespace Form

variable {ρ α : Type}

def member? (form : Form ρ α) (key : String) : Option (Member ρ) :=
  form.members.find? (·.key == key)

def missing? (form : Form ρ α) (record : ρ) : Option (Member ρ) :=
  form.members.find? fun m => m.required && !m.filled record

/-- The end of an object that is given up: what stands behind its brace, when that is next. -/
def leaveObject (s : List Char) : List Char :=
  match Reader.skipBlank s with
  | '\x7d' :: rest => rest
  | rest => rest

/-- Members of a record written as an object, the brace read. -/
def readMembers (form : Form ρ α) (depth : Nat) : Nat → Bool → ρ → Reader ρ
  | 0, _, _, s => .error (.before .endInObject s)
  | fuel + 1, first, record, s => do
    match ← Reader.memberStart first s with
    | .close rest => .ok (record, rest)
    | .key start =>
      let (key, afterKey) ← Reader.stringTail start
      match form.member? key with
      | none =>
        let afterColon ← Reader.colon afterKey
        let rest ← Reader.skip afterColon
        readMembers form depth fuel false record rest
      | some m =>
        if m.filled record then .error (.before (.repeatedMember key) (leaveObject afterKey))
        else
          let afterColon ← Reader.colon afterKey
          let (record, rest) ← m.read depth record afterColon
          readMembers form depth fuel false record rest

/-- Members of a record written as a list, the bracket read. Fewer members than there are may be
given when the others may be absent; `given` counts those before these. -/
def readList (form : Form ρ α) (depth : Nat) : List (Member ρ) → Nat → ρ → Reader ρ
  | [], _, record, s =>
    match Reader.skipBlank s with
    | [] => .error (.before .endInList [])
    | ']' :: rest => .ok (record, rest)
    | ',' :: rest =>
      match Reader.skipBlank rest with
      | ']' :: more => .error (.atFirst .trailingComma (']' :: more))
      | more => .error (.atFirst .trailingCharacters more)
    | start => .error (.atFirst .trailingCharacters start)
  | m :: more, given, record, s => do
    match ← Reader.itemStart (given == 0) s with
    | .item start =>
      let (record, rest) ← m.read depth record start
      readList form depth more (given + 1) record rest
    | .close rest =>
      match (m :: more).findIdx? (·.required) with
      | none => .ok (record, rest)
      | some i =>
        .error (.before (.shortRecord (given + i) form.title form.members.length) rest)

def finish (form : Form ρ α) (record : ρ) (rest : List Char) : Except Fault (α × List Char) :=
  match form.missing? record, form.complete record with
  | some m, _ => .error (.before (.missingMember m.key) rest)
  | none, some a => .ok (a, rest)
  | none, none => .error (.before .valueWanted rest)

end Form

/-- The fault of a token that is not of the wanted kind. -/
def unwanted (wanted : Wanted) (s : List Char) : Fault :=
  let found (found : Found) (rest : List Char) : Fault :=
    .before (.wrongType found wanted) rest
  match s with
  | [] => .before .endInValue []
  | 'n' :: rest => ending (Reader.word ['u', 'l', 'l'] rest) fun rest => found .null rest
  | 't' :: rest => ending (Reader.word ['r', 'u', 'e'] rest) fun rest => found (.bool true) rest
  | 'f' :: rest =>
    ending (Reader.word ['a', 'l', 's', 'e'] rest) fun rest => found (.bool false) rest
  | '-' :: rest => ending (Reader.number false rest) fun (n, rest) => found (.number n) rest
  | '"' :: rest => ending (Reader.stringTail rest) fun (text, rest) => found (.string text) rest
  | '[' :: rest => found .sequence ('[' :: rest)
  | '\x7b' :: rest => found .map ('\x7b' :: rest)
  | c :: rest =>
    if Reader.isDigit c then
      ending (Reader.number true (c :: rest)) fun (n, rest) => found (.number n) rest
    else .atFirst .valueWanted (c :: rest)
where
  ending {β : Type} : Except Fault β → (β → Fault) → Fault
    | .error fault, _ => fault
    | .ok b, f => f b

namespace Reader

def string (s : List Char) : Except Fault (String × List Char) :=
  match skipBlank s with
  | '"' :: rest => stringTail rest
  | start => .error (unwanted .string start)

def bool (s : List Char) : Except Fault (Bool × List Char) :=
  match skipBlank s with
  | 't' :: rest => do .ok (true, ← word ['r', 'u', 'e'] rest)
  | 'f' :: rest => do .ok (false, ← word ['a', 'l', 's', 'e'] rest)
  | start => .error (unwanted .bool start)

def optional {α : Type} (reader : Reader α) (s : List Char) :
    Except Fault (Option α × List Char) :=
  match skipBlank s with
  | 'n' :: rest => do .ok (none, ← word ['u', 'l', 'l'] rest)
  | start => do
    let (a, rest) ← reader start
    .ok (some a, rest)

/-- A list of values, inside whose brackets `depth - 1` more may be open. -/
def list {α : Type} (item : Nat → Reader α) (depth : Nat) (s : List Char) :
    Except Fault (List α × List Char) :=
  match skipBlank s with
  | '[' :: rest =>
    match depth with
    | 0 => .error (.atFirst .tooDeep ('[' :: rest))
    | depth + 1 => items (item depth) (rest.length + 1) true rest
  | start => .error (unwanted .sequence start)

def record {ρ α : Type} (form : Form ρ α) (depth : Nat) (s : List Char) :
    Except Fault (α × List Char) :=
  match skipBlank s with
  | '[' :: rest =>
    match depth with
    | 0 => .error (.atFirst .tooDeep ('[' :: rest))
    | depth + 1 => do
      let (r, rest) ← form.readList depth form.members 0 form.blank rest
      form.finish r rest
  | '\x7b' :: rest =>
    match depth with
    | 0 => .error (.atFirst .tooDeep ('\x7b' :: rest))
    | depth + 1 => do
      let (r, rest) ← form.readMembers depth (rest.length + 1) true form.blank rest
      form.finish r rest
  | start => .error (unwanted (.record form.title) start)

end Reader

end Toolwright.Json
