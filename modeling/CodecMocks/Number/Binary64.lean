/-!
# Floating-point numbers

The numbers of the binary interchange format of 64 bits, as exact values: a mantissa of at most
53 bits and a power of two. `ofDecimal` rounds a decimal to the nearest of them, `truncate` drops
the part behind the point.
-/

namespace CodecMocks.Number

/-- An exact value, one of the two infinities, or the undefined value. -/
inductive Binary64 where
  /-- The value `mantissa * 2 ^ exponent`, negated if `negative`. -/
  | finite (negative : Bool) (mantissa : Nat) (exponent : Int)
  | infinite (negative : Bool)
  | undefined
deriving DecidableEq, Repr

namespace Binary64

/-- The exponent of the numbers closest to zero. -/
def leastExponent : Int := -1074

/-- The exponent of the numbers farthest from zero. -/
def greatestExponent : Int := 971

/-- The quotient rounded to the nearest integer, a half to the even neighbour. -/
def roundDiv (num den : Nat) : Nat :=
  let q := num / den
  let r := 2 * (num % den)
  if r > den || (r == den && q % 2 == 1) then q + 1 else q

/-- `num / den` divided by `2 ^ e`, as a fraction. -/
def scaled (num den : Nat) (e : Int) : Nat × Nat :=
  (num * Nat.pow 2 (-e).toNat, den * Nat.pow 2 e.toNat)

/-- The exponent that leaves 53 bits before the point of `num / den`, or the least one. -/
def exponentFor (num den : Nat) : Int :=
  let e : Int := max (Int.ofNat num.log2 - Int.ofNat den.log2 - 53) leastExponent
  let (n, d) := scaled num den e
  if n / d ≥ Nat.pow 2 53 then e + 1 else e

/-- The number nearest to the positive fraction `num / den`. -/
def ofFraction (negative : Bool) (num den : Nat) : Binary64 :=
  let e := exponentFor num den
  let (n, d) := scaled num den e
  let m := roundDiv n d
  let (m, e) := if m ≥ Nat.pow 2 53 then (m / 2, e + 1) else (m, e)
  if e > greatestExponent then .infinite negative else .finite negative m e

/-- The number nearest to `digits * 10 ^ power`. Decimals far outside the range are decided by
their order of magnitude. -/
def ofDecimal (negative : Bool) (digits : Nat) (power : Int) : Binary64 :=
  let count : Int := (Nat.toDigits 10 digits).length
  if digits = 0 then .finite negative 0 leastExponent
  else if power + count > 400 then .infinite negative
  else if power + count < -400 then .finite negative 0 leastExponent
  else ofFraction negative (digits * Nat.pow 10 power.toNat) (Nat.pow 10 (-power).toNat)

/-- The integer toward zero; the infinities and the undefined value have none. -/
def truncate? : Binary64 → Option Int
  | .finite negative m e =>
    let n : Int := Int.ofNat (m * Nat.pow 2 e.toNat / Nat.pow 2 (-e).toNat)
    some (if negative then -n else n)
  | _ => none

end Binary64

end CodecMocks.Number
