import Toolwright.Text.Printable

/-!
String literals in double quotes. `literal` writes a text on one line: quote and backslash are
escaped, so is every character that is not printable, and all else stands for itself. The escapes
are `\\`, `\"`, `\n`, `\r`, `\t`, `\0` and `\u` with a hexadecimal number in braces.
-/

namespace Toolwright.Text

def hexDigit (d : Nat) : Char :=
  if d < 10 then Char.ofNat (48 + d) else Char.ofNat (87 + d)

def hexFrom : Nat → Nat → List Char → List Char
  | 0, _, acc => acc
  | fuel + 1, n, acc =>
    if n < 16 then hexDigit n :: acc else hexFrom fuel (n / 16) (hexDigit (n % 16) :: acc)

/-- Lower-case hexadecimal digits of a number, at least one. -/
def hex (n : Nat) : List Char := hexFrom (n + 1) n []

def escape (c : Char) : List Char :=
  if c = '"' then ['\\', '"']
  else if c = '\\' then ['\\', '\\']
  else if c = '\n' then ['\\', 'n']
  else if c = '\r' then ['\\', 'r']
  else if c = '\t' then ['\\', 't']
  else if c = '\x00' then ['\\', '0']
  else if isPrintable c then [c]
  else '\\' :: 'u' :: '\x7b' :: (hex c.toNat ++ ['\x7d'])

def literal (s : List Char) : List Char := '"' :: (s.flatMap escape ++ ['"'])

def literalOf (s : String) : String := String.ofList (literal s.toList)

end Toolwright.Text
