/-!
# Double-precision numbers

A double is a sign, a mantissa below 2^53 and an exponent of at least -1074, or one of the special
values. Finite values are kept in one canonical form: the mantissa is at least 2^52 unless the
exponent is the least one. All arithmetic is exact arithmetic on natural numbers; the only
rounding is that of a quotient to the nearest double, with ties to the even mantissa.
-/

namespace TranslationKeys

/-- A double-precision number. -/
inductive Binary64 where
  /-- Not a number. Where several are told apart, each one is known by the number of its object. -/
  | nan (object : Nat := 0)
  /-- An infinity. -/
  | infinite (negative : Bool)
  /-- The number `mantissa * 2 ^ exponent`, possibly negated. -/
  | finite (negative : Bool) (mantissa : Nat) (exponent : Int)
  deriving DecidableEq, Repr

namespace Binary64

/-- The least exponent. -/
def minExponent : Int := -1074

/-- The greatest exponent. -/
def maxExponent : Int := 971

/-- Zero, with its sign. -/
def zero (negative : Bool) : Binary64 :=
  .finite negative 0 minExponent

/-- The quotient rounded to the nearest natural number, a half going to the even neighbour. -/
def roundQuotient (num den : Nat) : Nat :=
  let q := num / den
  let r := num % den
  if 2 * r < den then q
  else if den < 2 * r then q + 1
  else if q % 2 == 0 then q else q + 1

/-- The quotient of `num` by `den * 2 ^ shift`, rounded. -/
def roundScaled (num den : Nat) (shift : Int) : Nat :=
  roundQuotient (num * Nat.pow 2 (-shift).toNat) (den * Nat.pow 2 shift.toNat)

/-- The greatest power of two that does not exceed a quotient of positive numbers. -/
def floorLog2 (num den : Nat) : Int :=
  let guess : Int := (Nat.log2 num : Int) - Nat.log2 den
  if num * Nat.pow 2 (-guess).toNat < den * Nat.pow 2 guess.toNat then guess - 1 else guess

/-- The double nearest to a quotient. -/
def ofQuotient (negative : Bool) (num den : Nat) : Binary64 :=
  if num == 0 then zero negative
  else
    let shift := max (floorLog2 num den - 52) minExponent
    let rounded := roundScaled num den shift
    let (mantissa, exponent) :=
      if rounded == Nat.pow 2 53 then (Nat.pow 2 52, shift + 1) else (rounded, shift)
    if exponent > maxExponent then .infinite negative else .finite negative mantissa exponent

/-- The double nearest to `digits * 10 ^ exponent`. Numbers far outside the range of doubles are
settled by their magnitude alone. -/
def ofDecimal (negative : Bool) (digits : Nat) (exponent : Int) : Binary64 :=
  let magnitude : Int := (Nat.toDigits 10 digits).length + exponent
  if digits == 0 || magnitude < -400 then zero negative
  else if magnitude > 400 then .infinite negative
  else ofQuotient negative (digits * Nat.pow 10 exponent.toNat) (Nat.pow 10 (-exponent).toNat)

/-- Whether a double is not a number. -/
def isNaN : Binary64 → Bool
  | .nan _ => true
  | _ => false

/-- Whether a double is one of the two zeros. -/
def isZero : Binary64 → Bool
  | .finite _ 0 _ => true
  | _ => false

/-- The integer a double equals, if it equals one. -/
def toInt? : Binary64 → Option Int
  | .finite negative mantissa exponent =>
    let num := mantissa * Nat.pow 2 exponent.toNat
    let den := Nat.pow 2 (-exponent).toNat
    if num % den == 0 then
      some (if negative then -((num / den : Nat) : Int) else ((num / den : Nat) : Int))
    else none
  | _ => none

/-- Whether two doubles are the same number: the zeros are one number, and what is not a number is
the same only as itself, as one object. -/
def sameNumber (a b : Binary64) : Bool :=
  (a.isZero && b.isZero) || a == b

end Binary64

end TranslationKeys
