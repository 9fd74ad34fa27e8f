/-!
Shortest decimals of binary floating-point numbers. A finite number is `m * 2 ^ q`; the reals that
round to it form an interval, which contains its ends exactly when `m` is even. `shortest` looks
at the grids of 1, 2, … 17 significant digits and answers with the first grid that has a point in
the interval, of two such points with the nearer.
-/

namespace Toolwright.Decimal

/-- A positive number `m * 2 ^ q` and whether the next smaller neighbour is only half as far away
as the next larger one. -/
structure Binary where
  m : Nat
  q : Int
  narrow : Bool
  deriving DecidableEq, Repr

/-- A positive decimal `0.d₁d₂… * 10 ^ point`: its digits without leading or trailing zeros. -/
structure Digits where
  digits : List Nat
  point : Int
  deriving DecidableEq, Repr

/-- The magnitude of a finite number from its bits; zero has none. -/
def Binary.ofBits? (bits : UInt64) : Option Binary :=
  let fraction := (bits &&& 0xFFFFFFFFFFFFF).toNat
  let exponent := ((bits >>> 52) &&& 0x7FF).toNat
  if exponent = 0 then
    if fraction = 0 then none else some ⟨fraction, -1074, false⟩
  else some ⟨fraction + 0x10000000000000, (exponent : Int) - 1075, fraction == 0 && exponent != 1⟩

structure Ratio where
  num : Nat
  den : Nat

def Ratio.scale (r : Ratio) (base : Nat) : Int → Ratio
  | .ofNat k => ⟨r.num * base.pow k, r.den⟩
  | .negSucc k => ⟨r.num, r.den * base.pow (k + 1)⟩

def Ratio.le (a b : Ratio) : Bool := a.num * b.den ≤ b.num * a.den

def Ratio.lt (a b : Ratio) : Bool := a.num * b.den < b.num * a.den

def Ratio.distance (a b : Ratio) : Ratio :=
  let x := a.num * b.den
  let y := b.num * a.den
  ⟨(x - y) + (y - x), a.den * b.den⟩

/-- Lower end, value and upper end of the reals that round to a number. -/
def Binary.interval (b : Binary) : Ratio × Ratio × Ratio :=
  let low : Ratio := if b.narrow then ⟨4 * b.m - 1, 4⟩ else ⟨2 * b.m - 1, 2⟩
  (low.scale 2 b.q, (⟨b.m, 1⟩ : Ratio).scale 2 b.q, (⟨2 * b.m + 1, 2⟩ : Ratio).scale 2 b.q)

def Binary.holds (b : Binary) (x : Ratio) : Bool :=
  let (low, _, high) := b.interval
  if b.m % 2 = 0 then low.le x && x.le high else low.lt x && x.lt high

/-- The least `p` from `start` on with `value < 10 ^ p`, among `fuel` candidates. -/
def pointFrom (value : Ratio) : Nat → Int → Int
  | 0, p => p
  | fuel + 1, p =>
    if value.lt ((⟨1, 1⟩ : Ratio).scale 10 p) then p else pointFrom value fuel (p + 1)

/-- The exponent `p` with `10 ^ (p - 1) ≤ value < 10 ^ p`. -/
def Binary.point (b : Binary) : Int :=
  let bits : Int := (Nat.log2 b.m : Int) + b.q
  pointFrom b.interval.2.1 4 (bits * 30103 / 100000 - 1)

/-- Among the two neighbours of the value on the grid with `n` digits, the nearer of those that
round to the number; the even one of two equally near. -/
def Binary.onGrid? (b : Binary) (p : Int) (n : Nat) : Option Nat :=
  let (_, value, _) := b.interval
  let scaled := value.scale 10 ((n : Int) - p)
  let below := scaled.num / scaled.den
  let back := fun k : Nat => (⟨k, 1⟩ : Ratio).scale 10 (p - (n : Int))
  let lowFits := b.holds (back below)
  let highFits := b.holds (back (below + 1))
  match lowFits, highFits with
  | false, false => none
  | true, false => some below
  | false, true => some (below + 1)
  | true, true =>
    let toLow := value.distance (back below)
    let toHigh := value.distance (back (below + 1))
    if toLow.lt toHigh then some below
    else if toHigh.lt toLow then some (below + 1)
    else if below % 2 = 0 then some below else some (below + 1)

def digitsFrom : Nat → Nat → List Nat → List Nat
  | 0, _, acc => acc
  | fuel + 1, n, acc => if n = 0 then acc else digitsFrom fuel (n / 10) (n % 10 :: acc)

/-- Decimal digits of a natural number, none for zero. -/
def digitsOf (n : Nat) : List Nat := digitsFrom (n.log2 + 1) n []

def search (b : Binary) (p : Int) : Nat → Nat → Digits
  | 0, _ => ⟨[], 0⟩
  | fuel + 1, n =>
    match b.onGrid? p n with
    | some k =>
      let all := digitsOf k
      ⟨(all.reverse.dropWhile (· = 0)).reverse, p + ((all.length : Int) - n)⟩
    | none => search b p fuel (n + 1)

/-- The fewest digits that read back as the number, and of those the nearest. -/
def shortest (b : Binary) : Digits := search b b.point 17 1

def digits? (x : Float) : Option Digits := (Binary.ofBits? x.toBits).map shortest

/-- Whether the number carries a minus sign, as the negative zero does. -/
def isNegative (x : Float) : Bool := x.toBits >>> 63 == 1

end Toolwright.Decimal
