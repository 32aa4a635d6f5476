/-!
# Binary numbers of double precision

A number of double precision is a whole number below 2^53 times a power of two. Here they are
exact: `ofRatio?` rounds a fraction to the nearest of them, a tie to the even one, and `digits`
finds the fewest decimal digits that round to a number. Only numbers that are not negative are
needed; a sign is kept apart.
-/

namespace GlyphTrim

/-- The number `mantissa * 2 ^ exponent`. -/
structure Binary64 where
  mantissa : Nat
  exponent : Int
  deriving Repr, DecidableEq

namespace Binary64

/-- The exponent of the smallest numbers. -/
def leastExponent : Int := -1074

/-- The exponent of the largest numbers. -/
def greatestExponent : Int := 971

/-- Zero. -/
def zero : Binary64 := ⟨0, leastExponent⟩

/-- The nearest whole number to a fraction, of two the even one. -/
def nearest (num den : Nat) : Nat :=
  let q := num / den
  let r := num % den
  if 2 * r < den then q
  else if den < 2 * r then q + 1
  else if q % 2 = 0 then q else q + 1

/-- A fraction over a power of two, as a fraction. -/
def scaled (num den : Nat) (exponent : Int) : Nat × Nat :=
  let power := Nat.pow 2 exponent.natAbs
  if exponent < 0 then (num * power, den) else (num, den * power)

/-- The exponent at which a fraction has a mantissa of 53 digits, or the least one. -/
def exponentOf (num den : Nat) : Int :=
  let e : Int := Nat.log2 num - Nat.log2 den - 52
  let (n, d) := scaled num den e
  let e := if n / d < Nat.pow 2 52 then e - 1 else if Nat.pow 2 53 ≤ n / d then e + 1 else e
  max e leastExponent

/-- The number nearest to a fraction, if it is not too large. -/
def ofRatio? (num den : Nat) : Option Binary64 :=
  if num = 0 then some zero
  else
    let e := exponentOf num den
    let (n, d) := scaled num den e
    let m := nearest n d
    let r : Binary64 := if m = Nat.pow 2 53 then ⟨Nat.pow 2 52, e + 1⟩ else ⟨m, e⟩
    if greatestExponent < r.exponent then none else some r

/-- The number nearest to a whole number below 2^64. -/
def ofNat (n : Nat) : Binary64 := (ofRatio? n 1).getD zero

/-- A number as a fraction. -/
def ratio (x : Binary64) : Nat × Nat :=
  let power := Nat.pow 2 x.exponent.natAbs
  if x.exponent < 0 then (x.mantissa, power) else (x.mantissa * power, 1)

/-- The number nearest to a power of ten, of which the exponent is at most 308. -/
def powerOfTen (k : Nat) : Binary64 := (ofRatio? (Nat.pow 10 k) 1).getD zero

/-- A product, rounded. -/
def mul? (x y : Binary64) : Option Binary64 :=
  ofRatio? (x.ratio.1 * y.ratio.1) (x.ratio.2 * y.ratio.2)

/-- A quotient, rounded. -/
def div (x y : Binary64) : Binary64 :=
  (ofRatio? (x.ratio.1 * y.ratio.2) (x.ratio.2 * y.ratio.1)).getD zero

/-! ## Decimal text -/

/-- Whether a fraction rounds to a number that is not zero. -/
def covers (x : Binary64) (num den : Nat) : Bool :=
  -- In quarters of the last place, so that the ends are whole.
  let quarter (m : Nat) : Nat × Nat := Binary64.ratio ⟨m, x.exponent - 2⟩
  let below :=
    if x.mantissa = Nat.pow 2 52 && leastExponent < x.exponent then 4 * x.mantissa - 1
    else 4 * x.mantissa - 2
  let (ln, ld) := quarter below
  let (hn, hd) := quarter (4 * x.mantissa + 2)
  if x.mantissa % 2 = 0 then ln * den ≤ num * ld && num * hd ≤ hn * den
  else ln * den < num * ld && num * hd < hn * den

/-- The fraction that a whole number and a power of ten stand for. -/
def decimalRatio (digits : Nat) (exponent : Int) : Nat × Nat :=
  let power := Nat.pow 10 exponent.natAbs
  if exponent < 0 then (digits, power) else (digits * power, 1)

/-- The exponent of the first decimal digit of a fraction: a power of ten that is not larger,
sought downwards from `top`. -/
def firstPlace (num den : Nat) (top : Int) : Nat → Int
  | 0 => top
  | fuel + 1 =>
    let (n, d) := decimalRatio 1 top
    if n * den ≤ num * d then top else firstPlace num den (top - 1) fuel

/-- The decimal with the last place `exponent` that is nearest to the number and rounds to it. -/
def atPlace? (x : Binary64) (exponent : Int) : Option (Nat × Int) :=
  let (n, d) := x.ratio
  let (pn, pd) := decimalRatio 1 exponent
  let num := n * pd
  let den := d * pn
  let low := num / den
  let fits (k : Nat) : Bool :=
    let (a, b) := decimalRatio k exponent
    x.covers a b
  let near := nearest num den
  let far := if near = low then low + 1 else low
  if fits near then some (near, exponent) else if fits far then some (far, exponent) else none

/-- The decimal with the fewest digits that rounds to a number: its digits, and the exponent of
the last of them. -/
def digits (x : Binary64) : Nat × Int :=
  if x.mantissa = 0 then (0, 0)
  else
    let first := firstPlace x.ratio.1 x.ratio.2 309 700
    let found := (List.range 17).findSome? fun (n : Nat) => x.atPlace? (first - n)
    found.getD (0, 0)

/-- Digits with a point at a place, and with at least one digit on each side of it. -/
def positional (digits : Nat) (exponent : Int) : String :=
  let cs := Nat.toDigits 10 digits
  if 0 ≤ exponent then String.ofList (cs ++ List.replicate exponent.natAbs '0') ++ ".0"
  else
    let places := exponent.natAbs
    let cs := List.replicate (places + 1 - cs.length) '0' ++ cs
    String.ofList (cs.take (cs.length - places)) ++ "." ++
      String.ofList (cs.drop (cs.length - places))

/-- A number in decimal text: as few digits as round to it, without an exponent. -/
def text (x : Binary64) : String := positional x.digits.1 x.digits.2

end Binary64

end GlyphTrim
