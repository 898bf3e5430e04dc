import CodecMocks.Number.Binary64

/-!
# The shortest decimal that reads back

Among the decimals that round to a given number, `shortest` takes one with the fewest digits, and
of those the nearest. For each count of digits only the two grid points around the number have to
be looked at: if any point of the grid rounds to it, one of them does.
-/

namespace CodecMocks.Number

/-- The decimal `0.d₁d₂… * 10 ^ point`. -/
structure Digits where
  digits : List Char
  point : Int
deriving DecidableEq, Repr

/-- A positive number together with the bounds of the reals that round to it, as numerators over
one denominator. -/
structure Interval where
  low : Nat
  value : Nat
  high : Nat
  den : Nat
  /-- The bounds themselves round to the number. -/
  closed : Bool
deriving DecidableEq, Repr

/-- The reals that round to `m * 2 ^ e`. The gap below a power of two is half the gap above it. -/
def Interval.around (m : Nat) (e : Int) : Interval :=
  let up := Nat.pow 2 (e - 2).toNat
  let gapBelow := if m = Nat.pow 2 52 ∧ e > Binary64.leastExponent then 1 else 2
  { low := (4 * m - gapBelow) * up
    value := 4 * m * up
    high := (4 * m + 2) * up
    den := Nat.pow 2 (2 - e).toNat
    closed := m % 2 == 0 }

/-- `num / den` lies in the interval. -/
def Interval.holds (i : Interval) (num den : Nat) : Bool :=
  let x := num * i.den
  if i.closed then i.low * den ≤ x && x ≤ i.high * den
  else i.low * den < x && x < i.high * den

/-- The least `p` with `num / den < 10 ^ p`, for a fraction at least 1. -/
def wholeDigits (num den : Nat) : Nat :=
  (Nat.toDigits 10 (num / den)).length

/-- How many zeros follow the point of `num / den < 1`, at most `fuel`. -/
def leadingZeros (num den : Nat) : Nat → Nat
  | 0 => 0
  | fuel + 1 => if num * 10 ≥ den then 0 else leadingZeros (num * 10) den fuel + 1

/-- The place of the point before the first digit. -/
def pointOf (num den : Nat) : Int :=
  if num ≥ den then wholeDigits num den else -(leadingZeros num den 400 : Int)

/-- The grid point with `count` digits that is in the interval, the nearer of two. -/
def Interval.onGrid? (i : Interval) (point : Int) (count : Nat) : Option Nat :=
  let power := point - count
  let up := Nat.pow 10 power.toNat
  let down := Nat.pow 10 (-power).toNat
  let below := i.value * down / (i.den * up)
  let holds (n : Nat) : Bool := i.holds (n * up) down
  match holds below, holds (below + 1) with
  | true, true =>
    let gap := i.value * down - below * (i.den * up)
    let rest := (below + 1) * (i.den * up) - i.value * down
    some (if gap < rest || (gap == rest && below % 2 == 0) then below else below + 1)
  | true, false => some below
  | false, true => some (below + 1)
  | false, false => none

/-- The first count of digits, out of `fuel` from `count` on, whose grid meets the interval. -/
def Interval.search (i : Interval) (point : Int) (count : Nat) : Nat → Nat × Nat
  | 0 => (0, count)
  | fuel + 1 =>
    match i.onGrid? point count with
    | some n => (n, count)
    | none => i.search point (count + 1) fuel

/-- The digits without the zeros at their end; a grid point may be the next power of ten, which
moves the point. -/
def Digits.ofGrid (n count : Nat) (point : Int) : Digits :=
  let text := Nat.toDigits 10 n
  { digits := (text.reverse.dropWhile (· == '0')).reverse
    point := point + (text.length - count : Int) }

/-- The shortest decimal that reads back as `m * 2 ^ e`, for a positive `m`. Seventeen digits
always suffice. -/
def shortest (m : Nat) (e : Int) : Digits :=
  let i := Interval.around m e
  let point := pointOf i.value i.den
  let (n, count) := i.search point 1 17
  Digits.ofGrid n count point

/-- How a number is written out: where its positional form ends. -/
structure Notation64 where
  /-- The least place of the point that is written positionally. -/
  leastPoint : Int
  /-- The greatest place of the point that is written positionally. -/
  greatestPoint : Int
  /-- The least number of digits of an exponent. -/
  exponentWidth : Nat
deriving DecidableEq, Repr

/-- `d₁d₂…` with the point in its place, and at least one digit on either side of it. -/
def Digits.positional (d : Digits) : List Char :=
  if d.point ≤ 0 then
    '0' :: '.' :: List.replicate (-d.point).toNat '0' ++ d.digits
  else
    let whole := d.point.toNat
    let rest := d.digits.drop whole
    d.digits.take whole ++ List.replicate (whole - d.digits.length) '0' ++
      '.' :: (if rest.isEmpty then ['0'] else rest)

/-- `d₁.d₂…e±n`; the point is left out where no digit follows it. -/
def Digits.scientific (d : Digits) (width : Nat) : List Char :=
  let exponent := d.point - 1
  let magnitude := Nat.toDigits 10 exponent.natAbs
  d.digits.take 1 ++
    (if d.digits.length ≤ 1 then [] else '.' :: d.digits.drop 1) ++
    'e' :: (if exponent < 0 then '-' else '+') ::
    List.replicate (width - magnitude.length) '0' ++ magnitude

/-- The text of a number. -/
def Notation64.write (f : Notation64) : Binary64 → String
  | .undefined => "nan"
  | .infinite negative => if negative then "-inf" else "inf"
  | .finite negative m e =>
    let sign := if negative then ['-'] else []
    let body :=
      if m = 0 then ['0', '.', '0']
      else
        let d := shortest m e
        if f.leastPoint ≤ d.point ∧ d.point ≤ f.greatestPoint then d.positional
        else d.scientific f.exponentWidth
    String.ofList (sign ++ body)

end CodecMocks.Number
