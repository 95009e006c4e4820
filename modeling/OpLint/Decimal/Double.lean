/-!
# Reading decimal numerals

A numeral is a number as it is written: a sign, whole digits, and perhaps a
fraction and an exponent. A whole numeral that fits 64 bits is an integer. Every
other one is a double, reached in two roundings: as many leading digits as fit
an unsigned 64-bit word make the significand, the others only count towards the
exponent, and the significand is then scaled by a power of ten. The result may
therefore miss the nearest double by a little. A numeral beyond the greatest
double has no value.
-/

namespace OpLint.Decimal

/-- A number as it is written. The fraction is empty when there is none. -/
structure Numeral where
  negative : Bool
  whole : List Char
  fraction : List Char
  /-- Whether the exponent is negative, and its digits. -/
  exponent : Option (Bool × List Char)
  deriving DecidableEq, Repr

inductive Number
  | natural (n : Nat)
  /-- The integer below zero by `n`. -/
  | negative (n : Nat)
  | real (x : Float)
  deriving Repr

def digitValue (c : Char) : Nat :=
  c.toNat - '0'.toNat

def greatestWord : Nat := 18446744073709551615

/-- Extends a significand by digits for as long as it fits a word, and counts the
digits left over. -/
def extend (significand : Nat) : List Char → Nat × Nat
  | [] => (significand, 0)
  | c :: cs =>
    let next := significand * 10 + digitValue c
    if next ≤ greatestWord then extend next cs else (significand, cs.length + 1)

/-- Value of a run of digits. -/
def digitsValue (cs : List Char) : Nat :=
  cs.foldl (fun n c => n * 10 + digitValue c) 0

/-- Exponents are kept within 32 bits; a greater one is as good as infinite. -/
def greatestExponent : Nat := 2147483647

def powerOfTen (n : Nat) : Float :=
  .ofScientific 1 false n

/-- Scales by a negative power of ten, at most 308 places at a time. -/
def scaleDown (x : Float) (places : Nat) : Float :=
  if x == 0 then x
  else if h : places ≤ 308 then x / powerOfTen places
  else scaleDown (x / powerOfTen 308) (places - 308)
termination_by places

/-- The value of `significand` times ten to the `exponent`, if it is finite. -/
def scale (significand : Nat) (exponent : Int) : Option Float :=
  let x := Float.ofNat significand
  if exponent < 0 then some (scaleDown x exponent.natAbs)
  else if exponent ≤ 308 then
    let y := x * powerOfTen exponent.toNat
    if y.isInf then none else some y
  else if significand = 0 then some x
  else none

namespace Numeral

/-- The significand, and the power of ten that the digits leave it with. -/
def significand (n : Numeral) : Nat × Int :=
  let (whole, dropped) := extend 0 n.whole
  let (all, ignored) := extend whole n.fraction
  (all, (dropped : Int) - ((n.fraction.length : Int) - ignored))

/-- The size of the number as a double. -/
def magnitude (n : Numeral) : Option Float :=
  let (digits, shift) := n.significand
  match n.exponent with
  | none => scale digits shift
  | some (down, ds) =>
    let places := digitsValue ds
    if places ≤ greatestExponent then
      let exponent := if down then shift - (places : Int) else shift + (places : Int)
      scale digits (max (-2147483648) (min exponent 2147483647))
    else if down || digits = 0 then some 0
    else none

/-- The number that a numeral stands for, if there is one. Zero with a minus sign
and integers that need more than 64 bits are doubles. -/
def value (n : Numeral) : Option Number :=
  let integer := digitsValue n.whole
  if n.fraction.isEmpty && n.exponent.isNone && !n.negative && integer ≤ greatestWord then
    some (.natural integer)
  else if n.fraction.isEmpty && n.exponent.isNone && n.negative
      && 0 < integer && integer ≤ 9223372036854775808 then
    some (.negative integer)
  else
    n.magnitude.map fun x => .real (if n.negative then -x else x)

end Numeral

end OpLint.Decimal
