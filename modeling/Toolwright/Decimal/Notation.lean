import Toolwright.Decimal.Shortest

/-!
Decimal notations. A `Style` says between which exponents a number is written positionally and
how an exponent is marked outside them; `Style.render` writes the shortest digits in that style.
-/

namespace Toolwright.Decimal

structure Style where
  /-- Least decimal exponent that is written positionally. -/
  low : Int
  /-- Greatest decimal exponent that is written positionally. -/
  high : Int
  /-- What marks an exponent that is not negative. -/
  plus : String
  deriving Repr

/-- JSON numbers: positional from 0.00001 up to sixteen digits before the point. -/
def Style.json : Style := ⟨-5, 15, "e+"⟩

/-- Literals of generated source: positional from 0.0001 up to sixteen digits. -/
def Style.literal : Style := ⟨-4, 15, "e"⟩

def digitChar (d : Nat) : Char := Char.ofNat (48 + d)

def digitChars (ds : List Nat) : List Char := ds.map digitChar

/-- Digits with a point and at least one digit on either side of it. -/
def positional (d : Digits) : List Char :=
  let chars := digitChars d.digits
  match d.point with
  | .negSucc k => '0' :: '.' :: (List.replicate (k + 1) '0' ++ chars)
  | .ofNat 0 => '0' :: '.' :: chars
  | .ofNat p =>
    let whole := chars.take p ++ List.replicate (p - chars.length) '0'
    let tail := chars.drop p
    whole ++ '.' :: (if tail = [] then ['0'] else tail)

/-- One digit, the others behind a point, and the exponent of ten. -/
def scientific (style : Style) (d : Digits) : List Char :=
  let chars := digitChars d.digits
  let e := d.point - 1
  let mantissa :=
    match chars with
    | [] => ['0']
    | first :: [] => [first]
    | first :: more => first :: '.' :: more
  let power :=
    if e < 0 then 'e' :: '-' :: (toString e.natAbs).toList
    else style.plus.toList ++ (toString e.natAbs).toList
  mantissa ++ power

def Style.magnitude (style : Style) (d : Digits) : List Char :=
  let e := d.point - 1
  if style.low ≤ e ∧ e ≤ style.high then positional d else scientific style d

def Style.render (style : Style) (x : Float) : List Char :=
  let sign := if isNegative x then ['-'] else []
  match digits? x with
  | none => sign ++ ['0', '.', '0']
  | some d => sign ++ style.magnitude d

end Toolwright.Decimal
