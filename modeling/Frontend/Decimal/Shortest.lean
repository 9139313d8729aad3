/-!
# Shortest decimals of binary floating-point numbers

A finite binary number `m · 2 ^ q` owns the reals that round to it: an interval around it whose ends
belong to it when `m` is even. `Binary.shortest` is the decimal with the fewest digits inside that
interval. All arithmetic is exact, on natural numbers.
-/

namespace Frontend

structure FloatFormat where
  fractionBits : Nat
  exponentBits : Nat

namespace FloatFormat

def single : FloatFormat := ⟨23, 8⟩

def double : FloatFormat := ⟨52, 11⟩

def specialExponent (f : FloatFormat) : Nat := Nat.pow 2 f.exponentBits - 1

/-- Exponent of the last place of a number with exponent field `0` or `1`. -/
def leastExponent (f : FloatFormat) : Int :=
  1 - (Nat.pow 2 (f.exponentBits - 1) - 1 : Int) - f.fractionBits

end FloatFormat

structure Binary where
  mantissa : Nat
  exponent : Int
  /-- The next smaller number is only half as far away as the next larger one. -/
  atBinade : Bool
  deriving DecidableEq, Repr

inductive FloatClass where
  | nan
  | infinity (negative : Bool)
  | zero (negative : Bool)
  | finite (negative : Bool) (value : Binary)
  deriving DecidableEq, Repr

def FloatFormat.classify (f : FloatFormat) (bits : Nat) : FloatClass :=
  let fraction := bits % Nat.pow 2 f.fractionBits
  let field := bits / Nat.pow 2 f.fractionBits % Nat.pow 2 f.exponentBits
  let negative := bits.testBit (f.fractionBits + f.exponentBits)
  if field = f.specialExponent then
    if fraction = 0 then .infinity negative else .nan
  else if field = 0 then
    if fraction = 0 then .zero negative else .finite negative ⟨fraction, f.leastExponent, false⟩
  else
    .finite negative
      { mantissa := Nat.pow 2 f.fractionBits + fraction
        exponent := f.leastExponent + (field - 1)
        atBinade := fraction == 0 && field != 1 }

structure Decimal where
  digits : Nat
  exponent : Int
  deriving DecidableEq, Repr, Inhabited

/-- A positive fraction with its interval: `low ≤ value ≤ high`, all over one denominator. -/
structure RoundingInterval where
  low : Nat
  value : Nat
  high : Nat
  denominator : Nat
  /-- Whether the ends belong to the interval. -/
  closed : Bool

namespace RoundingInterval

/-- The reals that round to `b`, in quarters of the last place. -/
def ofBinary (b : Binary) : RoundingInterval :=
  let scale := b.exponent - 2
  let up := Nat.pow 2 scale.toNat
  { low := (4 * b.mantissa - (if b.atBinade then 1 else 2)) * up
    value := 4 * b.mantissa * up
    high := (4 * b.mantissa + 2) * up
    denominator := Nat.pow 2 (-scale).toNat
    closed := b.mantissa % 2 == 0 }

def contains (r : RoundingInterval) (n : Nat) (e : Int) : Bool :=
  let point := n * Nat.pow 10 e.toNat * r.denominator
  let down := Nat.pow 10 (-e).toNat
  if r.closed then decide (r.low * down ≤ point ∧ point ≤ r.high * down)
  else decide (r.low * down < point ∧ point < r.high * down)

def floorAt (r : RoundingInterval) (e : Int) : Nat :=
  r.value * Nat.pow 10 (-e).toNat / (r.denominator * Nat.pow 10 e.toNat)

def upperIsNearer (r : RoundingInterval) (n : Nat) (e : Int) : Bool :=
  decide ((2 * n + 1) * Nat.pow 10 e.toNat * r.denominator ≤ 2 * r.value * Nat.pow 10 (-e).toNat)

/-- The point of the grid of step `10 ^ e` inside the interval, if one of the value's two neighbours
on the grid is inside; of two the nearer one, the upper one on a tie. -/
def gridPoint? (r : RoundingInterval) (e : Int) : Option Nat :=
  let n := r.floorAt e
  match r.contains n e && decide (0 < n), r.contains (n + 1) e with
  | true, true => some (if r.upperIsNearer n e then n + 1 else n)
  | true, false => some n
  | false, true => some (n + 1)
  | false, false => none

def firstGridPoint (r : RoundingInterval) : Nat → Int → Option Decimal
  | 0, _ => none
  | fuel + 1, e =>
    match r.gridPoint? e with
    | some n => some ⟨n, e⟩
    | none => r.firstGridPoint fuel (e - 1)

end RoundingInterval

def Decimal.trimZeros : Nat → Decimal → Decimal
  | 0, d => d
  | fuel + 1, d =>
    if d.digits ≠ 0 ∧ d.digits % 10 = 0 then trimZeros fuel ⟨d.digits / 10, d.exponent + 1⟩ else d

/-- The decimal with the fewest digits that rounds to the number. The search starts at a step above
the number itself and ends below its last place. -/
def Binary.shortest (b : Binary) : Decimal :=
  let r := RoundingInterval.ofBinary b
  let width := (Nat.toDigits 10 (r.high / r.denominator)).length
  let start : Int := if r.denominator = 1 then width else
    if r.high < r.denominator then
      1 - (Nat.toDigits 10 (r.denominator / r.high)).length else width
  let d := (r.firstGridPoint 40 start).getD ⟨0, 0⟩
  d.trimZeros 40

end Frontend
