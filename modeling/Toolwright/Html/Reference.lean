import Toolwright.Html.Entity
import Toolwright.Text.Part

/-!
Character references. `Reference.read` takes one off a text that begins behind the ampersand; a
named one is the longest name that fits, and inside attribute values a name without its semicolon
counts only where no letter, digit or equals sign follows. `expand` replaces all references of a
text.
-/

namespace Toolwright.Html

structure Entity where
  name : List Char
  /-- Whether the semicolon may be left out. -/
  bare : Bool
  text : List Char

namespace Reference

def hexDigit? (c : Char) : Option Nat :=
  if c.isDigit then some (c.toNat - 48)
  else if 'a' ≤ c ∧ c ≤ 'f' then some (c.toNat - 87)
  else if 'A' ≤ c ∧ c ≤ 'F' then some (c.toNat - 55)
  else none

def hexNumber (s : List Char) : Nat := s.foldl (fun n c => n * 16 + (hexDigit? c).getD 0) 0

def number (s : List Char) : Nat := s.foldl (fun n c => n * 10 + (c.toNat - 48)) 0

def entityOf (entry : List Char) : Entity :=
  let name := entry.takeWhile Char.isAlphanum
  let rest := entry.dropWhile Char.isAlphanum
  { name
    bare := rest.head? == some '.'
    text := (Text.splitAt (· == '+') (rest.drop 1)).map fun code => Char.ofNat (hexNumber code) }

def entities : List Entity :=
  Entity.rows.flatMap fun row => (Text.splitAt (· == ' ') row.toList).map entityOf

/-- How much of a text an entity takes, if it stands at the beginning. -/
def Entity.fit? (e : Entity) (s : List Char) : Option Nat :=
  match e.name.isPrefixOf? s with
  | none => none
  | some rest =>
    if rest.head? = some ';' then some (e.name.length + 1)
    else if e.bare then some e.name.length
    else none

/-- The entity that takes most of a text, with what it takes. -/
def longest? (s : List Char) : Option (Entity × Nat) :=
  entities.foldl
    (fun best e =>
      match Entity.fit? e s, best with
      | none, _ => best
      | some n, none => some (e, n)
      | some n, some (_, m) => if m < n then some (e, n) else best)
    none

def controls : List Nat := [
  0x20AC, 0x81, 0x201A, 0x192, 0x201E, 0x2026, 0x2020, 0x2021,
  0x2C6, 0x2030, 0x160, 0x2039, 0x152, 0x8D, 0x17D, 0x8F,
  0x90, 0x2018, 0x2019, 0x201C, 0x201D, 0x2022, 0x2013, 0x2014,
  0x2DC, 0x2122, 0x161, 0x203A, 0x153, 0x9D, 0x17E, 0x178]

def replacement : Char := Char.ofNat 0xFFFD

def charOf (n : Nat) : Char :=
  if n = 0 ∨ 0x10FFFF < n ∨ (0xD800 ≤ n ∧ n ≤ 0xDFFF) then replacement
  else if 0x80 ≤ n ∧ n ≤ 0x9F then Char.ofNat (controls.getD (n - 0x80) n)
  else Char.ofNat n

/-- Digits of a number, its character and what follows, a semicolon passed over. -/
def numeric (isDigit : Char → Bool) (value : List Char → Nat) (s : List Char) :
    Option (List Char × List Char) :=
  match s.takeWhile isDigit with
  | [] => none
  | digits =>
    let rest := s.dropWhile isDigit
    some ([charOf (value digits)], if rest.head? = some ';' then rest.drop 1 else rest)

def named (inAttribute : Bool) (s : List Char) : Option (List Char × List Char) :=
  match longest? s with
  | none => none
  | some (e, n) =>
    let rest := s.drop n
    let cut := inAttribute && n == e.name.length &&
      rest.head?.any fun c => c == '=' || c.isAlphanum
    if cut then none else some (e.text, rest)

/-- Take a reference off a text that begins behind its ampersand: what it stands for and the text
behind it. -/
def read (inAttribute : Bool) (s : List Char) : Option (List Char × List Char) :=
  match s with
  | '#' :: 'x' :: rest => numeric (fun c => (hexDigit? c).isSome) hexNumber rest
  | '#' :: 'X' :: rest => numeric (fun c => (hexDigit? c).isSome) hexNumber rest
  | '#' :: rest => numeric Char.isDigit number rest
  | _ => named inAttribute s

def expandFrom (inAttribute : Bool) : Nat → List Char → List Char
  | 0, s => s
  | _, [] => []
  | fuel + 1, '&' :: rest =>
    match read inAttribute rest with
    | some (text, rest) => text ++ expandFrom inAttribute fuel rest
    | none => '&' :: expandFrom inAttribute fuel rest
  | fuel + 1, c :: rest => c :: expandFrom inAttribute fuel rest

def expand (inAttribute : Bool) (s : List Char) : List Char :=
  expandFrom inAttribute s.length s

end Reference

end Toolwright.Html
