namespace BatchFetch

/-- A binary64 number by its bits. -/
structure Binary64 where
  bits : UInt64
  deriving DecidableEq, Inhabited

namespace Binary64

/-- The weight of the sign bit. -/
def signWeight : Nat := 0x8000000000000000

/-- The weight of the lowest bit of the exponent, which is the significand of a power of two. -/
def exponentWeight : Nat := 0x10000000000000

def isNegative (x : Binary64) : Bool :=
  x.bits.toNat / signWeight == 1

def magnitude (x : Binary64) : Nat :=
  x.bits.toNat % signWeight

def significand (x : Binary64) : Nat :=
  if x.magnitude < exponentWeight then x.magnitude
  else exponentWeight + x.magnitude % exponentWeight

def exponent (x : Binary64) : Int :=
  if x.magnitude < exponentWeight then -1074 else (x.magnitude / exponentWeight : Nat) - 1075

def ofMagnitude (negative : Bool) (magnitude : Nat) : Binary64 :=
  ⟨(magnitude + if negative then signWeight else 0).toUInt64⟩

def zero (negative : Bool) : Binary64 :=
  ofMagnitude negative 0

/-- `base ^ e` as a fraction of natural numbers. -/
def power (base : Nat) (e : Int) : Nat × Nat :=
  if e < 0 then (1, Nat.pow base e.natAbs) else (Nat.pow base e.natAbs, 1)

/-- The quotient rounded to the nearest natural number, a half going to the even neighbour. -/
def roundDiv (num den : Nat) : Nat :=
  let quotient := num / den
  let twice := 2 * (num % den)
  if twice < den then quotient
  else if twice = den then quotient + quotient % 2
  else quotient + 1

/-- The magnitude bits nearest to a positive fraction, if they stay below infinity. -/
def ofFraction? (num den : Nat) : Option Nat :=
  let guess : Int := (num.log2 : Int) - den.log2 - 53
  let scaled (q : Int) : Nat × Nat :=
    let (up, down) := power 2 q
    (num * down, den * up)
  let (n, d) := scaled guess
  let q : Int := max (-1074) (if n / d < 2 * exponentWeight then guess else guess + 1)
  let (n, d) := scaled q
  let magnitude := (q + 1074).toNat * exponentWeight + roundDiv n d
  if magnitude < 2047 * exponentWeight then some magnitude else none

/-- The number nearest to `digits * 10 ^ e`, if it is finite. -/
def ofDecimal? (negative : Bool) (digits : Nat) (e : Int) : Option Binary64 :=
  if digits = 0 then some (zero negative)
  else
    let length : Int := (Nat.toDigits 10 digits).length
    if length + e < -400 then some (zero negative)
    else if 400 < length + e then none
    else
      let (up, down) := power 10 e
      (ofFraction? (digits * up) down).map (ofMagnitude negative)

/-- The positive number nearest to a fraction, or zero, if it is finite. -/
def nearest? (num den : Nat) : Option Binary64 :=
  if num = 0 then some (zero false) else (ofFraction? num den).map (ofMagnitude false)

/-- The absolute value of a number as a fraction. -/
def fraction (x : Binary64) : Nat × Nat :=
  let (up, down) := power 2 x.exponent
  (x.significand * up, down)

/-- The product of two absolute values, if it is finite. -/
def mul? (x y : Binary64) : Option Binary64 :=
  let (a, b) := x.fraction
  let (c, d) := y.fraction
  nearest? (a * c) (b * d)

/-- The quotient of two absolute values, if it is finite. -/
def div? (x y : Binary64) : Option Binary64 :=
  let (a, b) := x.fraction
  let (c, d) := y.fraction
  nearest? (a * d) (b * c)

/-- Divide by `10 ^ e`, and before by the largest power of ten as often as asked for, each time with
rounding. Nothing is left to do once the number is zero. -/
def divByPower? : Nat → Nat → Binary64 → Option Binary64
  | 0, e, x => do x.div? (← ofDecimal? false 1 e)
  | more + 1, e, x =>
    if x.magnitude = 0 then some x
    else do divByPower? more e (← x.div? (← ofDecimal? false 1 308))

/-- The finite number for `significand * 10 ^ e` from arithmetic on binary64 numbers, which is not
always the nearest one. -/
def ofParts? (negative : Bool) (significand : Nat) (e : Int) : Option Binary64 := do
  let x ← nearest? significand 1
  let scaled ←
    if 308 < e then if x.magnitude = 0 then some x else none
    else if 0 ≤ e then x.mul? (← ofDecimal? false 1 e)
    else
      let often := (e.natAbs - 1) / 308
      divByPower? often (e.natAbs - 308 * often) x
  return ofMagnitude negative scaled.magnitude

/-- A decimal `digits * 10 ^ exponent` without trailing zeros in `digits`. -/
structure Decimal where
  digits : Nat
  exponent : Int
  deriving DecidableEq, Inhabited

/-- The decimals on one grid that read back as a positive magnitude: of the two neighbours of the
exact value on the grid of multiples of `10 ^ p` the nearer one that rounds to it. -/
def onGrid? (x : Binary64) (p : Int) : Option Nat :=
  let m := x.significand
  let lowest := if m = exponentWeight ∧ -1074 < x.exponent then 4 * m - 1 else 4 * m - 2
  let highest := 4 * m + 2
  let (unitUp, unitDown) := power 2 (x.exponent - 2)
  let (gridUp, gridDown) := power 10 p
  let inUnits (n : Nat) : Nat := n * unitUp * gridDown
  let onGrid (d : Nat) : Nat := d * gridUp * unitDown
  let readsBack (d : Nat) : Bool :=
    if m % 2 = 0 then inUnits lowest ≤ onGrid d && onGrid d ≤ inUnits highest
    else inUnits lowest < onGrid d && onGrid d < inUnits highest
  let value := inUnits (4 * m)
  let below := value / (gridUp * unitDown)
  let above := below + 1
  let distanceBelow := value - onGrid below
  let distanceAbove := onGrid above - value
  let preferBelow :=
    if distanceBelow = distanceAbove then below % 2 = 0 else distanceBelow < distanceAbove
  match readsBack below, readsBack above with
  | true, true => some (if preferBelow then below else above)
  | true, false => some below
  | false, true => some above
  | false, false => none

/-- The decimal exponent of a positive magnitude: `10 ^ e ≤ x < 10 ^ (e + 1)`. -/
def decimalExponent (x : Binary64) : Int :=
  let binary : Int := x.significand.log2 + x.exponent
  let guess := Int.fdiv (binary * 30103) 100000
  let (unitUp, unitDown) := power 2 x.exponent
  let (up, down) := power 10 (guess + 1)
  if up * unitDown ≤ x.significand * unitUp * down then guess + 1 else guess

def stripZeros : Nat → Nat → Int → Decimal
  | 0, digits, e => ⟨digits, e⟩
  | fuel + 1, digits, e =>
    if digits % 10 = 0 then stripZeros fuel (digits / 10) (e + 1) else ⟨digits, e⟩

/-- The fewest digits that read back as the magnitude, and of those the nearest. -/
def shortest (x : Binary64) : Decimal :=
  if x.magnitude = 0 then ⟨0, 0⟩
  else
    let e := x.decimalExponent
    let found := (List.range 17).findSome? fun (k : Nat) =>
      (x.onGrid? (e - k)).map fun d => stripZeros 20 d (e - k)
    found.getD ⟨0, 0⟩

end Binary64
end BatchFetch
