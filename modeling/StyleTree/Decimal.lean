/-!
Decimal text of numbers. A whole number is its digits without leading zeros, after a minus sign if
it is negative. A floating-point number is the shortest decimal number that denotes it, laid out as
one of several formats wants it.
-/

namespace StyleTree.Decimal

/-! ### Whole numbers -/

def twoTo (k : Nat) : Nat := Nat.pow 2 k

def tenTo (k : Nat) : Nat := Nat.pow 10 k

def natChars (n : Nat) : List Char := Nat.toDigits 10 n

def intChars : Int → List Char
  | .ofNat n => natChars n
  | .negSucc n => '-' :: natChars (n + 1)

def natText (n : Nat) : String := String.ofList (natChars n)

def intText (n : Int) : String := String.ofList (intChars n)

/-!
### The shortest decimal number

A finite number is `mantissa * 2 ^ exponent`. The reals that round to it form an interval around it
whose ends belong to it exactly when the mantissa is even. Among the decimal numbers in the interval
those with the fewest digits are taken, and of two such neighbours the nearer one. All of it is
exact arithmetic on natural numbers.
-/

inductive Tie
  | up
  | toEven
  deriving DecidableEq

structure Binary where
  mantissa : Nat
  exponent : Int
  /-- The number below is half as far away as the number above. -/
  narrowBelow : Bool
  deriving DecidableEq

/-- The magnitude that the bits of a finite number stand for: eleven bits of exponent above
fifty-two bits of fraction, with exponent zero for the numbers too small to be normalised. -/
def Binary.ofBits (bits : UInt64) : Binary :=
  let fraction : Nat := bits.toNat % twoTo 52
  let power : Nat := bits.toNat / twoTo 52 % twoTo 11
  if power = 0 then ⟨fraction, -1074, false⟩
  else ⟨twoTo 52 + fraction, (power : Int) - 1075, fraction = 0 && 1 < power⟩

structure Scaled where
  coefficient : Nat
  exponent : Int
  deriving DecidableEq

def Scaled.compareBinary (d : Scaled) (m : Nat) (q : Int) : Ordering :=
  compare (d.coefficient * tenTo d.exponent.toNat * twoTo (-q).toNat)
    (m * twoTo q.toNat * tenTo (-d.exponent).toNat)

/-- Whether the decimal number `d` lies among the reals that round to `x`. -/
def Binary.isDenotedBy (x : Binary) (d : Scaled) : Bool :=
  let low := if x.narrowBelow then 4 * x.mantissa - 1 else 4 * x.mantissa - 2
  let high := 4 * x.mantissa + 2
  let ends := x.mantissa % 2 = 0
  let fromLow := d.compareBinary low (x.exponent - 2)
  let toHigh := d.compareBinary high (x.exponent - 2)
  (fromLow == .gt || (ends && fromLow == .eq)) && (toHigh == .lt || (ends && toHigh == .eq))

def Binary.fraction (x : Binary) : Nat × Nat :=
  (x.mantissa * twoTo x.exponent.toNat, twoTo (-x.exponent).toNat)

def Binary.floorAt (x : Binary) (g : Int) : Nat :=
  (x.fraction.1 * tenTo (-g).toNat) / (x.fraction.2 * tenTo g.toNat)

def digitCount (n : Nat) : Nat := (natChars n).length

/-- For `x` other than zero, the `k` with `10 ^ (k - 1) ≤ x < 10 ^ k`. -/
def Binary.magnitude (x : Binary) : Int :=
  let (n, d) := x.fraction
  if d ≤ n then digitCount (n / d) else 1 - digitCount ((d - 1) / n)

def Binary.roundsUp (x : Binary) (tie : Tie) (g : Int) (a : Nat) : Bool :=
  match Scaled.compareBinary ⟨2 * a + 1, g⟩ (2 * x.mantissa) x.exponent with
  | .lt => true
  | .gt => false
  | .eq => tie = .up || a % 2 = 1

/-- The multiple of `10 ^ g` that denotes `x`, if one of the two next to `x` does: the nearer one if
both do. -/
def Binary.onGrid? (x : Binary) (tie : Tie) (g : Int) : Option Scaled :=
  let below : Scaled := ⟨x.floorAt g, g⟩
  let above : Scaled := ⟨x.floorAt g + 1, g⟩
  if x.isDenotedBy below && !(x.isDenotedBy above && x.roundsUp tie g (x.floorAt g)) then some below
  else if x.isDenotedBy above then some above
  else none

def Binary.exact (x : Binary) : Scaled :=
  if 0 ≤ x.exponent then ⟨x.mantissa * twoTo x.exponent.toNat, 0⟩
  else ⟨x.mantissa * (tenTo (-x.exponent).toNat / twoTo (-x.exponent).toNat), x.exponent⟩

/-- The shortest decimal number for `x`, which is not zero. Seventeen digits are always enough. -/
def Binary.shortest (x : Binary) (tie : Tie) : Scaled :=
  ((List.range 17).findSome? fun n : Nat => x.onGrid? tie (x.magnitude - (n + 1))).getD x.exact

structure Significant where
  digits : List Char
  power : Int
  deriving DecidableEq

def Scaled.significant (d : Scaled) : Significant :=
  let cs := natChars d.coefficient
  ⟨(cs.reverse.dropWhile (· = '0')).reverse, d.exponent + cs.length - 1⟩

/-!
### Layouts

A `Layout` records the decisions of one format, and `Layout.text` follows it.
-/

structure Layout where
  /-- Whether a number whose first digit stands for this power of ten is written without an
  exponent. -/
  positional : Int → Bool
  /-- A whole number without an exponent ends in `.0`. -/
  pointZero : Bool
  plusSign : Bool
  tie : Tie
  nan : String := "NaN"
  infinity : String := "inf"

/-- Digits without an exponent: the point stands after the digit for the power zero. -/
def Layout.plain (layout : Layout) (s : Significant) : List Char :=
  if s.power < 0 then
    '0' :: '.' :: (List.replicate (-s.power - 1).toNat '0' ++ s.digits)
  else
    let whole := s.power.toNat + 1
    if s.digits.length ≤ whole then
      s.digits ++ List.replicate (whole - s.digits.length) '0' ++
        if layout.pointZero then ['.', '0'] else []
    else
      s.digits.take whole ++ '.' :: s.digits.drop whole

def Layout.scientific (layout : Layout) (s : Significant) : List Char :=
  let lead := match s.digits with
    | d :: e :: rest => d :: '.' :: e :: rest
    | ds => ds
  let sign := if s.power < 0 then ['-'] else if layout.plusSign then ['+'] else []
  lead ++ 'e' :: (sign ++ natChars s.power.natAbs)

def Layout.magnitude (layout : Layout) (x : Binary) : List Char :=
  if x.mantissa = 0 then '0' :: if layout.pointZero then ['.', '0'] else []
  else
    let s := (x.shortest layout.tie).significant
    if layout.positional s.power then layout.plain s else layout.scientific s

def Layout.text (layout : Layout) (f : Float) : String :=
  let sign := if twoTo 63 ≤ f.toBits.toNat then "-" else ""
  if f.isNaN then layout.nan
  else if f.isInf then sign ++ layout.infinity
  else sign ++ String.ofList (layout.magnitude (Binary.ofBits f.toBits))

end StyleTree.Decimal
