import Toolwright.Decimal.Notation
import Toolwright.Text.Literal
import Toolwright.Yaml.Document

/-!
What scalars mean: nothing, a truth value, a number or a text. A plain scalar without a tag means
what it looks like; digits behind a leading zero look like a text.
-/

namespace Toolwright.Yaml

def isNullText (s : List Char) : Bool :=
  ["null", "Null", "NULL", "~"].any (·.toList == s)

def boolean? (s : List Char) : Option Bool :=
  if ["true", "True", "TRUE"].any (·.toList == s) then some true
  else if ["false", "False", "FALSE"].any (·.toList == s) then some false
  else none

/-- The number that digits of a base spell; there is at least one. -/
def digits? (base : Nat) (s : List Char) : Option Nat :=
  let digit? := fun (c : Char) => (hexValue? c).filter (· < base)
  if s = [] then none else s.foldl (fun n c => do some ((← n) * base + (← digit? c))) (some 0)

/-- A zero and further digits, with or without a sign. -/
def isPaddedDigits (s : List Char) : Bool :=
  let s := match s with
    | '-' :: rest => rest
    | '+' :: rest => rest
    | _ => s
  match s with
  | '0' :: rest => !rest.isEmpty && rest.all (·.isDigit)
  | _ => false

/-- The number that digits spell: hexadecimal, octal or binary ones by what stands in front of them,
else decimal ones without padding. -/
def magnitude? (s : List Char) : Option Nat :=
  match s with
  | '0' :: 'x' :: rest => digits? 16 rest
  | '0' :: 'o' :: rest => digits? 8 rest
  | '0' :: 'b' :: rest => digits? 2 rest
  | _ => if isPaddedDigits s then none else digits? 10 s

def natural? (s : List Char) : Option Nat :=
  match s with
  | '+' :: rest => magnitude? rest
  | _ => magnitude? s

def integer? (s : List Char) : Option Int :=
  match s with
  | '-' :: rest =>
    ((magnitude? rest).filter (· ≤ 0x80000000000000000000000000000000)).map fun n => -(n : Int)
  | _ => ((natural? s).filter (· ≤ 0xFFFFFFFFFFFFFFFFFFFFFFFFFFFFFFFF)).map fun n => (n : Int)

/-- A decimal: its digits as a number and the exponent of ten. -/
def decimal? (s : List Char) : Option (Nat × Int) := do
  let whole := s.takeWhile (·.isDigit)
  let rest := s.drop whole.length
  let (fraction, rest) :=
    match rest with
    | '.' :: rest =>
      let fraction := rest.takeWhile (·.isDigit)
      (fraction, rest.drop fraction.length)
    | _ => ([], rest)
  let mantissa ← digits? 10 (whole ++ fraction)
  let shift : Int := fraction.length
  match rest with
  | [] => some (mantissa, -shift)
  | e :: rest =>
    if e = 'e' ∨ e = 'E' then
      match rest with
      | '-' :: rest => (digits? 10 rest).map fun n => (mantissa, -(n : Int) - shift)
      | '+' :: rest => (digits? 10 rest).map fun n => (mantissa, (n : Int) - shift)
      | _ => (digits? 10 rest).map fun n => (mantissa, (n : Int) - shift)
    else none

/-- The nearest number to `mantissa * 10 ^ exponent`, unless that is too great. -/
def nearest? (mantissa : Nat) (exponent : Int) : Option Float :=
  let size := (toString mantissa).length + exponent
  if mantissa = 0 ∨ size < -330 then some 0.0
  else if 310 < size then none
  else
    let x := Float.ofScientific mantissa (decide (exponent < 0)) exponent.natAbs
    if x.isFinite then some x else none

def unsignedReal? (s : List Char) : Option Float := do
  let (mantissa, exponent) ← decimal? s
  nearest? mantissa exponent

def real? (s : List Char) : Option Float :=
  let infinite := [".inf", ".Inf", ".INF"].map String.toList
  match s with
  | '-' :: rest =>
    if infinite.contains rest then some (-(1.0 / 0.0)) else (unsignedReal? rest).map (-·)
  | '+' :: rest => if infinite.contains rest then some (1.0 / 0.0) else unsignedReal? rest
  | _ =>
    if infinite.contains s then some (1.0 / 0.0)
    else if [".nan", ".NaN", ".NAN"].any (·.toList == s) then some (0.0 / 0.0)
    else unsignedReal? s

inductive Meaning where
  | null
  | boolean (b : Bool)
  | integer (n : Int)
  | real (x : Float)
  | text (s : List Char)

def Meaning.ofPlain (s : List Char) : Meaning :=
  if s = [] ∨ isNullText s then .null
  else
    match boolean? s with
    | some b => .boolean b
    | none =>
      match integer? s with
      | some n => .integer n
      | none =>
        match if isPaddedDigits s then none else real? s with
        | some x => .real x
        | none => .text s

inductive Kind where
  | null
  | boolean
  | integer
  | real
  deriving DecidableEq, Repr

def Kind.tag : Kind → String
  | .null => "tag:yaml.org,2002:null"
  | .boolean => "tag:yaml.org,2002:bool"
  | .integer => "tag:yaml.org,2002:int"
  | .real => "tag:yaml.org,2002:float"

def Kind.describe : Kind → String
  | .null => "null"
  | .boolean => "a boolean"
  | .integer => "an integer"
  | .real => "a float"

def Kind.meaning? (k : Kind) (s : List Char) : Option Meaning :=
  match k with
  | .null => if isNullText s then some .null else none
  | .boolean => (boolean? s).map .boolean
  | .integer => (integer? s).map .integer
  | .real => (real? s).map .real

namespace Scalar

def kind? (s : Scalar) : Option Kind := do
  let tag ← s.tag
  [Kind.null, .boolean, .integer, .real].find? fun k => k.tag.toList == tag

/-- What a scalar means, or the kind that its tag names and its text does not have. Scalars in
quotes, blocks and those with another tag are texts; a tag of one's own changes nothing. -/
def meaning (s : Scalar) : Except Kind Meaning :=
  match s.kind? with
  | some k => (k.meaning? s.text).elim (.error k) .ok
  | none =>
    if s.style = .plain ∧ s.tag.all (·.head? == some '!') then .ok (.ofPlain s.text)
    else .ok (.text s.text)

/-- Whether the text counts where a scalar of this kind is wanted. -/
def isBare (s : Scalar) (k : Kind) : Bool :=
  s.style == .plain || (s.style == .literal && s.kind? == some k)

end Scalar

/-- Numbers in messages: a point always, an exponent never. -/
def realStyle : Decimal.Style := ⟨-1000, 1000, "e"⟩

def realText (x : Float) : String :=
  if x.isNaN then "NaN"
  else if x.isInf then (if x < 0 then "-inf" else "inf")
  else String.ofList (realStyle.render x)

namespace Meaning

def describe : Meaning → String
  | .null => "unit value"
  | .boolean b => "boolean \x60" ++ (if b then "true" else "false") ++ "\x60"
  | .integer n =>
    "integer \x60" ++ toString n ++ "\x60" ++
      if 0xFFFFFFFFFFFFFFFF < n then " as u128"
      else if n < -0x8000000000000000 then " as i128" else ""
  | .real x => "floating point \x60" ++ realText x ++ "\x60"
  | .text s => "string " ++ String.ofList (Text.literal s)

end Meaning

end Toolwright.Yaml
