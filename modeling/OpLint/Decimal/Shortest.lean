/-!
# The shortest decimal text of a double

Among the decimals that read back as a given double, those with the fewest digits
are the shortest, and of these the one nearest to the double is its text. A finite
double is `m · 2 ^ q` with a whole `m`. The reals that round to it form an
interval, whose ends belong to it when `m` is even. For one digit, two digits and
so on, a decimal grid is tried: of its points only the two neighbours of the
double can lie in the interval and be nearest.

All is done in whole numbers, in quarters of the spacing of doubles.
-/

namespace OpLint.Decimal

/-- A positive double `m · 2 ^ q`, and whether the spacing of doubles below it is
half of that above it. -/
structure Binary where
  m : Nat
  q : Int
  narrowBelow : Bool
  deriving DecidableEq, Repr

/-- The double with the given bits, its sign left out. -/
def Binary.ofBits (bits : UInt64) : Binary :=
  let unit := 4503599627370496
  let fraction : Nat := bits.toNat % unit
  let exponent : Nat := bits.toNat / unit % 2048
  if exponent = 0 then ⟨fraction, -1074, false⟩
  else ⟨unit + fraction, (exponent : Int) - 1075, fraction = 0 && 1 < exponent⟩

/-- The number `a · 10 ^ e`, as a fraction. -/
def tenTimes (a : Nat) (e : Int) : Nat × Nat :=
  if 0 ≤ e then (a * Nat.pow 10 e.toNat, 1) else (a, Nat.pow 10 (-e).toNat)

/-- The number `a · 2 ^ e`, as a fraction. -/
def twoTimes (a : Nat) (e : Int) : Nat × Nat :=
  if 0 ≤ e then (a * Nat.pow 2 e.toNat, 1) else (a, Nat.pow 2 (-e).toNat)

/-- Compares two fractions. -/
def compareFractions (a b : Nat × Nat) : Ordering :=
  compare (a.1 * b.2) (b.1 * a.2)

namespace Binary

/-- Whether the decimal `d · 10 ^ e` rounds to `x`. -/
def accepts (x : Binary) (d : Nat) (e : Int) : Bool :=
  let point := tenTimes d e
  let low := twoTimes (4 * x.m - if x.narrowBelow then 1 else 2) (x.q - 2)
  let high := twoTimes (4 * x.m + 2) (x.q - 2)
  match compareFractions low point, compareFractions point high with
  | .lt, .lt => true
  | .gt, _ | _, .gt => false
  | _, _ => x.m % 2 = 0

/-- The greatest multiple of `10 ^ e` that is at most `x`, counted in `10 ^ e`. -/
def floorAt (x : Binary) (e : Int) : Nat :=
  let (a, b) := twoTimes x.m x.q
  if 0 ≤ e then a / (b * Nat.pow 10 e.toNat) else a * Nat.pow 10 (-e).toNat / b

/-- Whether `x` lies nearer to `(d + 1) · 10 ^ e` than to `d · 10 ^ e`; of two
neighbours equally near, the even one is taken. -/
def nearerAbove (x : Binary) (d : Nat) (e : Int) : Bool :=
  let (a, b) := tenTimes (2 * d + 1) e
  match compareFractions (twoTimes x.m x.q) (a, 2 * b) with
  | .gt => true
  | .lt => false
  | .eq => d % 2 = 1

/-- The best point for `x` on the grid of the multiples of `10 ^ e`, if one of them
reads back as `x`. -/
def onGrid (x : Binary) (e : Int) : Option Nat :=
  let d := x.floorAt e
  match x.accepts d e, x.accepts (d + 1) e with
  | true, true => some (if x.nearerAbove d e then d + 1 else d)
  | true, false => some d
  | false, true => some (d + 1)
  | false, false => none

/-- The number of decimal digits before the point; not positive when zeros follow
the point. -/
def magnitude (x : Binary) : Int :=
  let (a, b) := twoTimes x.m x.q
  if b ≤ a then (Nat.toDigits 10 (a / b)).length
  else 1 - ((Nat.toDigits 10 (b / a)).length : Int)

/-- Tries grids with more and more digits, down from `10 ^ e`. Seventeen digits
always suffice. -/
def search (x : Binary) (e : Int) : Nat → Nat × Int
  | 0 => (x.floorAt e, e)
  | tries + 1 =>
    match x.onGrid e with
    | some d => (d, e)
    | none => search x (e - 1) tries

/-- Drops the zeros at the end of `d · 10 ^ e`. -/
def trim (d : Nat) (e : Int) : Nat × Int :=
  if h : 0 < d ∧ d % 10 = 0 then trim (d / 10) (e + 1) else (d, e)
termination_by d
decreasing_by omega

/-- The shortest decimal `d · 10 ^ e` that reads back as `x`. -/
def shortest (x : Binary) : Nat × Int :=
  let (d, e) := x.search (x.magnitude + 1) 20
  trim d e

end Binary

/-- How a double is written: plainly from a least to a greatest place of the point,
and else with an exponent. -/
structure Layout where
  /-- The point stands after more than this many digits, zeros after it counting
  below zero, in a plain text. -/
  above : Int
  /-- The greatest number of digits before the point of a plain text. -/
  most : Int

/-- An exponent with its sign, which is also written when it is positive. -/
def signedExponent (e : Int) : String :=
  if 0 ≤ e then s!"+{e}" else toString e

/-- Writes `d · 10 ^ e`. A plain text has a digit on either side of the point. -/
def Layout.write (layout : Layout) (d : Nat) (e : Int) : String :=
  let digits := Nat.toDigits 10 d
  let point : Int := digits.length + e
  let zeros (n : Int) : List Char := .replicate n.toNat '0'
  .ofList <|
    if 0 ≤ e ∧ point ≤ layout.most then digits ++ zeros e ++ ['.', '0']
    else if 0 < point ∧ point ≤ layout.most then
      digits.take point.toNat ++ ['.'] ++ digits.drop point.toNat
    else if layout.above < point ∧ point ≤ 0 then ['0', '.'] ++ zeros (-point) ++ digits
    else
      let mantissa := match digits with
        | [c] => [c]
        | c :: cs => c :: '.' :: cs
        | [] => []
      mantissa ++ ['e'] ++ (signedExponent (point - 1)).toList

/-- Doubles are written plainly from `0.00001` up to sixteen digits before the point. -/
def plainLayout : Layout := ⟨-5, 16⟩

/-- The text of a finite double. -/
def doubleText (x : Float) : String :=
  let bits := x.toBits
  let sign := if 9223372036854775808 ≤ bits.toNat then "-" else ""
  let x := Binary.ofBits bits
  if x.m = 0 then sign ++ "0.0"
  else
    let (d, e) := x.shortest
    sign ++ plainLayout.write d e

end OpLint.Decimal
