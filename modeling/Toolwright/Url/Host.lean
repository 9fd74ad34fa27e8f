import Toolwright.Text.Part
import Toolwright.Url.Percent

/-!
Hosts of addresses: names, numeric addresses of four bytes, and addresses of eight words in
brackets. A name with characters outside of ASCII is written in the ASCII form of such names.
-/

namespace Toolwright.Url

def baseDigit (d : Nat) : Char :=
  if d < 26 then Char.ofNat (97 + d) else Char.ofNat (22 + d)

def adaptFrom : Nat → Nat → Nat → Nat
  | 0, _, k => k
  | fuel + 1, delta, k =>
    if delta ≤ 455 then k + 36 * delta / (delta + 38) else adaptFrom fuel (delta / 35) (k + 36)

def adapt (delta points : Nat) (first : Bool) : Nat :=
  let delta := if first then delta / 700 else delta / 2
  adaptFrom 64 (delta + delta / points) 0

def varDigits : Nat → Nat → Nat → Nat → List Char
  | 0, _, _, _ => []
  | fuel + 1, bias, k, q =>
    let t := if k ≤ bias then 1 else if bias + 26 ≤ k then 26 else k - bias
    if q < t then [baseDigit q]
    else baseDigit (t + (q - t) % (36 - t)) :: varDigits fuel bias (k + 36) ((q - t) / (36 - t))

structure Coder where
  delta : Nat
  bias : Nat
  /-- How many characters are written. -/
  handled : Nat
  first : Bool
  out : List Char

/-- Pass over the characters of a label, writing the places of `m`. -/
def codePass (m : Nat) (c : Coder) : List Char → Coder
  | [] => c
  | x :: rest =>
    if x.toNat < m then codePass m { c with delta := c.delta + 1 } rest
    else if x.toNat = m then
      codePass m
        { delta := 0
          bias := adapt c.delta (c.handled + 1) c.first
          handled := c.handled + 1
          first := false
          out := c.out ++ varDigits 64 c.bias 36 c.delta }
        rest
    else codePass m c rest

/-- Write the characters from `n` on, at most `fuel` different ones. -/
def codeFrom (label : List Char) : Nat → Nat → Coder → Coder
  | 0, _, c => c
  | fuel + 1, n, c =>
    match ((label.map Char.toNat).filter (n ≤ ·)).min? with
    | none => c
    | some m =>
      let c := codePass m { c with delta := c.delta + (m - n) * (c.handled + 1) } label
      codeFrom label fuel (m + 1) { c with delta := c.delta + 1 }

def asciiLabel (label : List Char) : List Char :=
  if label.all (·.toNat < 128) then label
  else
    let basic := label.filter (·.toNat < 128)
    let start := Coder.mk 0 72 basic.length true (if basic.isEmpty then [] else basic ++ ['-'])
    "xn--".toList ++ (codeFrom label label.length 128 start).out

def asciiName (name : List Char) : List Char :=
  ['.'].intercalate ((Text.splitAt (· == '.') name).map asciiLabel)

def numberIn (base : Nat) (digits : List Char) : Option Nat :=
  digits.foldl
    (fun n c => do
      let d ← hexValue? c
      if d < base then some ((← n) * base + d) else none)
    (some 0)

/-- A number of an address: decimal, octal behind a zero, hexadecimal behind `0x`. -/
def addressNumber? (s : List Char) : Option Nat :=
  match s with
  | [] => none
  | '0' :: 'x' :: digits => numberIn 16 digits
  | '0' :: 'X' :: digits => numberIn 16 digits
  | '0' :: d :: digits => numberIn 8 (d :: digits)
  | _ => numberIn 10 s

/-- The parts of a name, without an empty one at the end. -/
def addressParts (name : List Char) : List (List Char) :=
  let parts := Text.splitAt (· == '.') name
  if 1 < parts.length ∧ parts.getLast? = some [] then parts.dropLast else parts

/-- Whether a name has to be an address of four bytes. -/
def endsInNumber (name : List Char) : Bool :=
  match (addressParts name).getLast? with
  | none => false
  | some [] => false
  | some last =>
    last.all Char.isDigit || ((last.take 2 == ['0', 'x'] || last.take 2 == ['0', 'X']) &&
      (addressNumber? last).isSome)

/-- An address of four bytes, from up to four numbers of which the last fills what is left. -/
def fourBytes? (name : List Char) : Option (List Char) := do
  let numbers ← (addressParts name).mapM addressNumber?
  let last ← numbers.getLast?
  let front := numbers.dropLast
  if 4 < numbers.length ∨ front.any (255 < ·) ∨ Nat.pow 256 (5 - numbers.length) ≤ last then none
  else
    let value := front.zipIdx.foldl (fun sum (n, i) => sum + n * Nat.pow 256 (3 - i)) last
    let bytes := [value / 0x1000000, value / 0x10000 % 256, value / 0x100 % 256, value % 256]
    some (['.'].intercalate (bytes.map fun n => (toString n).toList))

def group? (s : List Char) : Option Nat :=
  if s.isEmpty ∨ 4 < s.length then none else numberIn 16 s

/-- Four bytes at the end of an address in brackets, as two groups. -/
def byteGroups? (s : List Char) : Option (List Nat) := do
  let parts := Text.splitAt (· == '.') s
  let bytes ← parts.mapM fun p =>
    if p.isEmpty ∨ !p.all Char.isDigit ∨ (1 < p.length ∧ p.head? = some '0') then none
    else (numberIn 10 p).filter (· ≤ 255)
  match bytes with
  | [a, b, c, d] => some [a * 256 + b, c * 256 + d]
  | _ => none

def groups? (s : List Char) : Option (List Nat) :=
  if s.isEmpty then some []
  else
    let parts := Text.splitAt (· == ':') s
    match parts.getLast? with
    | none => none
    | some last =>
      if last.contains '.' then do
        let front ← parts.dropLast.mapM group?
        let back ← byteGroups? last
        some (front ++ back)
      else parts.mapM group?

/-- The first place where two colons stand side by side. -/
def splitDouble? : List Char → Option (List Char × List Char)
  | ':' :: ':' :: rest => some ([], rest)
  | c :: rest => (splitDouble? rest).map fun (a, b) => (c :: a, b)
  | [] => none

def eightGroups? (s : List Char) : Option (List Nat) :=
  match splitDouble? s with
  | none => (groups? s).filter (·.length = 8)
  | some (front, back) => do
    let before ← groups? front
    let behind ← groups? back
    if before.length + behind.length < 8 ∧ !front.contains '.' then
      some (before ++ List.replicate (8 - before.length - behind.length) 0 ++ behind)
    else none

def lowerHexFrom : Nat → Nat → List Char → List Char
  | 0, _, acc => acc
  | fuel + 1, n, acc =>
    let d := n % 16
    let acc := (if d < 10 then Char.ofNat (48 + d) else Char.ofNat (87 + d)) :: acc
    if n < 16 then acc else lowerHexFrom fuel (n / 16) acc

def lowerHex (n : Nat) : List Char := lowerHexFrom 8 n []

/-- The longest run of zeros, its place and length; the first one of those that are alike. -/
def longestZeros (groups : List Nat) : Nat × Nat :=
  (List.range groups.length).foldl
    (fun best i =>
      let n := ((groups.drop i).takeWhile (· == 0)).length
      if best.2 < n then (i, n) else best)
    (0, 0)

/-- Eight groups as text, the longest run of zeros left out. -/
def groupsText (groups : List Nat) : List Char :=
  let join := fun (gs : List Nat) => [':'].intercalate (gs.map lowerHex)
  let (start, n) := longestZeros groups
  if n < 2 then join groups
  else join (groups.take start) ++ [':', ':'] ++ join (groups.drop (start + n))

def forbiddenInHost (c : Char) : Bool :=
  ['\x00', '\t', '\n', '\r', ' ', '#', '/', ':', '<', '>', '?', '@', '[', '\\', ']', '^',
    '|'].contains c

def forbiddenInName (c : Char) : Bool :=
  forbiddenInHost c || c == '%' || c.toNat < 0x20 || c.toNat = 0x7F

def bracketed? (s : List Char) : Option (List Char) :=
  match s.getLast? with
  | some ']' => (eightGroups? (s.drop 1).dropLast).map fun gs => '[' :: (groupsText gs ++ [']'])
  | _ => none

def specialHost? (s : List Char) : Option (List Char) :=
  if s.head? = some '[' then bracketed? s
  else
    let name := asciiName ((decodeText s).map Char.toLower)
    if name.isEmpty ∨ name.any forbiddenInName then none
    else if endsInNumber name then fourBytes? name
    else some name

def opaqueHost? (s : List Char) : Option (List Char) :=
  if s.head? = some '[' then bracketed? s
  else if s.any forbiddenInHost then none
  else some (encodeWith inControls s)

end Toolwright.Url
