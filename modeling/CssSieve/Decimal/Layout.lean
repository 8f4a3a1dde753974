import CssSieve.Decimal.Shortest

/-!
# Written forms of binary64 numbers

A number is written with the digits of its shortest decimal. A `Layout` says the rest: which of two
equally near decimals is taken, whether a whole number keeps a fraction, and for which places of the
decimal point the positional form is used instead of an exponent.

CSS text is always positional and has no fraction where none is needed (`5`, `-0`, `0.5`). JSON
text keeps a fraction and goes over to an exponent for numbers of at least `10^16` and of less than
`10^-5`.
-/

namespace CssSieve.Decimal

/-- The choices that the shortest digits leave open. -/
structure Layout where
  /-- Which of two equally near decimals is taken. -/
  tie : Tie
  /-- Whole numbers are written with `.0`. -/
  keepsFraction : Bool
  /-- The least and the greatest count of digits before the point for which no exponent is
  written; `none` when an exponent is never written. -/
  positional : Option (Int × Int)

/-- Numbers in CSS text. -/
def css : Layout := ⟨.up, false, none⟩

/-- Numbers in JSON text. -/
def json : Layout := ⟨.even, true, some (-4, 16)⟩

/-- The digits of a positive number, without the zeros at its end, and how many of them stand before
the decimal point. -/
def significant (d : Decimal) : List Char × Int :=
  let all := Nat.toDigits 10 d.digits
  ((all.reverse.dropWhile (· == '0')).reverse, d.exponent + all.length)

/-- Digits with the point after the first `point` of them, zeros filling what is missing. -/
def Layout.place (layout : Layout) (digits : List Char) (point : Int) : List Char :=
  let zeros (n : Int) := List.replicate n.toNat '0'
  if point ≤ 0 then '0' :: '.' :: (zeros (-point) ++ digits)
  else if digits.length ≤ point then
    digits ++ zeros (point - digits.length) ++ (if layout.keepsFraction then ['.', '0'] else [])
  else digits.take point.toNat ++ '.' :: digits.drop point.toNat

/-- Digits with the point after the first one and the power of ten behind. -/
def scientific (digits : List Char) (point : Int) : List Char :=
  let mantissa := match digits with
    | [d] => [d]
    | d :: ds => d :: '.' :: ds
    | [] => []
  mantissa ++ 'e' :: (toString (point - 1)).toList

/-- The text of a positive decimal. -/
def Layout.decimal (layout : Layout) (d : Decimal) : List Char :=
  let (digits, point) := significant d
  match layout.positional with
  | none => layout.place digits point
  | some (least, greatest) =>
    if least ≤ point ∧ point ≤ greatest then layout.place digits point
    else scientific digits point

/-- The text of a number: a sign for every pattern with the sign bit, also that of zero. -/
def Layout.write (layout : Layout) (x : Float) : String :=
  let bits := x.toBits
  let sign := if bits.toNat.testBit 63 then ['-'] else []
  if exponentField bits = 2047 then
    if fractionField bits = 0 then String.ofList (sign ++ "inf".toList) else "NaN"
  else if exponentField bits = 0 ∧ fractionField bits = 0 then
    String.ofList (sign ++ if layout.keepsFraction then ['0', '.', '0'] else ['0'])
  else String.ofList (sign ++ layout.decimal ((Magnitude.ofBits bits).shortest layout.tie))

end CssSieve.Decimal
