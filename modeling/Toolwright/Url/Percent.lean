import Toolwright.Text.Utf8

/-!
Percent encoding: bytes as `%` with two hexadecimal digits. A part of an address has a set of
characters that may not stand for themselves; what is no ASCII is encoded everywhere.
-/

namespace Toolwright.Url

def upperDigit (d : Nat) : Char := if d < 10 then Char.ofNat (48 + d) else Char.ofNat (55 + d)

def percentByte (b : UInt8) : List Char :=
  ['%', upperDigit (b.toNat / 16), upperDigit (b.toNat % 16)]

def isControl (c : Char) : Bool := c.toNat < 0x20 || 0x7F ≤ c.toNat

/-- Encode the characters that satisfy `p`, controls and everything outside of ASCII. -/
def encodeWith (p : Char → Bool) (s : List Char) : List Char :=
  s.flatMap fun c =>
    if isControl c || p c then (Text.encode (String.singleton c)).flatMap percentByte else [c]

def inControls (_ : Char) : Bool := false

def inQuery (c : Char) : Bool := [' ', '"', '#', '<', '>'].contains c

def inSpecialQuery (c : Char) : Bool := inQuery c || c == '\''

def inPath (c : Char) : Bool :=
  inQuery c || c == '?' || c == '\x60' || c == '\x7b' || c == '\x7d'

def inUserInfo (c : Char) : Bool :=
  inPath c || ['/', ':', ';', '=', '@', '[', '\\', ']', '^', '|'].contains c

def hexValue? (c : Char) : Option Nat :=
  if c.isDigit then some (c.toNat - 48)
  else if 'a' ≤ c ∧ c ≤ 'f' then some (c.toNat - 87)
  else if 'A' ≤ c ∧ c ≤ 'F' then some (c.toNat - 55)
  else none

def decodeBytes : List UInt8 → List UInt8
  | 0x25 :: a :: b :: rest =>
    match hexValue? (Char.ofNat a.toNat), hexValue? (Char.ofNat b.toNat) with
    | some x, some y => (x * 16 + y).toUInt8 :: decodeBytes rest
    | _, _ => 0x25 :: decodeBytes (a :: b :: rest)
  | byte :: rest => byte :: decodeBytes rest
  | [] => []

def decodeText (s : List Char) : List Char :=
  (Text.decodeLossy (decodeBytes (Text.encode (String.ofList s)))).toList

end Toolwright.Url
