/-!
Texts and bytes. `encode` writes a text as UTF-8, and `decodeLossy` reads any bytes: every maximal
piece that cannot begin or continue a character becomes one U+FFFD.
-/

namespace Toolwright.Text

def encode (s : String) : List UInt8 := s.toUTF8.toList

def byteCount : List Char → Nat
  | [] => 0
  | c :: rest => c.utf8Size + byteCount rest

/-- How many bytes follow a leading byte, with the bounds for the first of them. -/
def continuation? (b : UInt8) : Option (Nat × UInt8 × UInt8) :=
  if b < 0x80 then some (0, 0, 0)
  else if 0xC2 ≤ b ∧ b ≤ 0xDF then some (1, 0x80, 0xBF)
  else if b = 0xE0 then some (2, 0xA0, 0xBF)
  else if b = 0xED then some (2, 0x80, 0x9F)
  else if 0xE1 ≤ b ∧ b ≤ 0xEF then some (2, 0x80, 0xBF)
  else if b = 0xF0 then some (3, 0x90, 0xBF)
  else if 0xF1 ≤ b ∧ b ≤ 0xF3 then some (3, 0x80, 0xBF)
  else if b = 0xF4 then some (3, 0x80, 0x8F)
  else none

/-- Continuation bytes in front of `rest`, at most `n`, the first within the bounds. -/
def takeContinuation : Nat → UInt8 → UInt8 → List UInt8 → List UInt8
  | 0, _, _, _ => []
  | _, _, _, [] => []
  | n + 1, low, high, b :: rest =>
    if low ≤ b ∧ b ≤ high then b :: takeContinuation n 0x80 0xBF rest else []

def assemble (lead : UInt8) (more : List UInt8) : Char :=
  let first :=
    match more.length with
    | 0 => lead.toNat
    | 1 => lead.toNat % 0x20
    | 2 => lead.toNat % 0x10
    | _ => lead.toNat % 0x08
  Char.ofNat (more.foldl (fun n b => n * 64 + b.toNat % 64) first)

/-- The first character of some bytes, `none` when they begin with none, and how many bytes
belong to it or have to be given up together. -/
def decodeFirst (lead : UInt8) (rest : List UInt8) : Option Char × Nat :=
  match continuation? lead with
  | none => (none, 1)
  | some (n, low, high) =>
    let more := takeContinuation n low high rest
    if more.length = n then (some (assemble lead more), n + 1) else (none, more.length + 1)

def decodeLossyFrom : Nat → List UInt8 → List Char
  | 0, _ => []
  | _, [] => []
  | fuel + 1, lead :: rest =>
    let (c, n) := decodeFirst lead rest
    c.getD '\uFFFD' :: decodeLossyFrom fuel (rest.drop (n - 1))

/-- Read bytes as text; what is no character is replaced. -/
def decodeLossy (bytes : List UInt8) : String :=
  String.ofList (decodeLossyFrom bytes.length bytes)

end Toolwright.Text
