/-!
# Shortest decimals of binary64 numbers

Every finite binary64 number is `m · 2^q` for natural `m` and integer `q`. The reals that round to
it form an interval around it, which contains its two end points exactly when `m` is even.
`shortest` finds the decimal with the fewest digits in that interval, and of those the nearest to
the number. Two can be equally near; then a `Tie` decides.

All arithmetic is exact: a real is compared with another by multiplying both up to naturals.
-/

namespace CssSieve

/-- The number `digits · 10^exponent`. -/
structure Decimal where
  digits : Nat
  exponent : Int
deriving DecidableEq, Repr

namespace Decimal

/-- Which of two neighbours on a decimal grid is taken when both are equally near. -/
inductive Tie where
  | up
  | even
deriving DecidableEq, Repr

/-- A binary64 number that is neither zero, infinite nor undefined, without its sign:
`mantissa · 2^exponent`. -/
structure Magnitude where
  mantissa : Nat
  exponent : Int
  /-- The number below is only half as far away as the number above. -/
  closerBelow : Bool
deriving DecidableEq, Repr

/-- The leading bit of a mantissa, which stands before the fifty-two bits of the fraction. -/
def implicitBit : Nat := 1 <<< 52

/-- The fields of a binary64 bit pattern: eleven bits of exponent and fifty-two of fraction. -/
def exponentField (bits : UInt64) : Nat := bits.toNat / implicitBit % 2048

/-- The low fifty-two bits of a binary64 bit pattern. -/
def fractionField (bits : UInt64) : Nat := bits.toNat % implicitBit

/-- The magnitude that a bit pattern with a finite exponent field stands for. An exponent field of
zero has no implicit leading bit. -/
def Magnitude.ofBits (bits : UInt64) : Magnitude :=
  let e := exponentField bits
  let f := fractionField bits
  if e = 0 then ⟨f, -1074, false⟩ else ⟨implicitBit + f, (e : Int) - 1075, f == 0⟩

/-- A nonnegative rational, compared exactly by cross multiplication. -/
structure Ratio where
  num : Nat
  den : Nat

namespace Ratio

/-- `m · 2^e`. -/
def binary (m : Nat) (e : Int) : Ratio :=
  if 0 ≤ e then ⟨m <<< e.toNat, 1⟩ else ⟨m, 1 <<< (-e).toNat⟩

/-- `m · 10^e`. -/
def decimal (m : Nat) (e : Int) : Ratio :=
  if 0 ≤ e then ⟨m * Nat.pow 10 e.toNat, 1⟩ else ⟨m, Nat.pow 10 (-e).toNat⟩

def lt (a b : Ratio) : Bool := a.num * b.den < b.num * a.den

def le (a b : Ratio) : Bool := a.num * b.den ≤ b.num * a.den

/-- How many digits stand before the decimal point; zero or negative when the first nonzero digit
stands after it. -/
def point (a : Ratio) : Int :=
  if a.den ≤ a.num then (Nat.toDigits 10 (a.num / a.den)).length
  else 1 - (Nat.toDigits 10 ((a.den - 1) / a.num)).length

/-- The number of whole steps of `10^e` in `a`. -/
def steps (a : Ratio) (e : Int) : Nat :=
  if 0 ≤ e then a.num / (a.den * Nat.pow 10 e.toNat) else a.num * Nat.pow 10 (-e).toNat / a.den

end Ratio

namespace Magnitude

/-- The number itself. -/
def toRatio (m : Magnitude) : Ratio := .binary (4 * m.mantissa) (m.exponent - 2)

/-- Where the reals that round to the number begin: half way to the number below. -/
def lowest (m : Magnitude) : Ratio :=
  .binary (4 * m.mantissa - (if m.closerBelow then 1 else 2)) (m.exponent - 2)

/-- Where the reals that round to the number end: half way to the number above. -/
def highest (m : Magnitude) : Ratio := .binary (4 * m.mantissa + 2) (m.exponent - 2)

/-- Whether a real rounds to the number; half way goes to the even mantissa. -/
def attracts (m : Magnitude) (a : Ratio) : Bool :=
  if m.mantissa % 2 = 0 then m.lowest.le a && a.le m.highest
  else m.lowest.lt a && a.lt m.highest

/-- Which of `low` and `low + 1` on the grid of step `10^e` is taken, for a number between them. -/
def nearer (m : Magnitude) (tie : Tie) (low : Nat) (e : Int) : Nat :=
  let middle := Ratio.decimal (10 * low + 5) (e - 1)
  if m.toRatio.lt middle then low
  else if middle.lt m.toRatio then low + 1
  else
    match tie with
    | .up => low + 1
    | .even => low + low % 2

/-- The decimal on the grid of step `10^e` that reads back as the number, if there is one. -/
def onGrid (m : Magnitude) (tie : Tie) (e : Int) : Option Decimal :=
  let low := m.toRatio.steps e
  let lowHit := m.attracts (.decimal low e)
  let highHit := m.attracts (.decimal (low + 1) e)
  if lowHit && highHit then some ⟨m.nearer tie low e, e⟩
  else if lowHit then some ⟨low, e⟩
  else if highHit then some ⟨low + 1, e⟩
  else none

/-- The first of the grids with one, two, … seventeen digits that holds a decimal which reads back
as the number. Seventeen digits always suffice. -/
def shortest (m : Magnitude) (tie : Tie) : Decimal :=
  let point := m.toRatio.point
  ((List.range 17).findSome? fun (n : Nat) => m.onGrid tie (point - ((n : Int) + 1))).getD
    ⟨m.toRatio.steps (point - 17), point - 17⟩

end Magnitude

end Decimal

end CssSieve
