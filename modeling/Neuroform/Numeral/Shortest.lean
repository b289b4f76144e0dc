/-
  Neuroform — the fewest decimal digits that read back.

  The numbers that round to a given floating-point number form an interval
  around it, whose ends belong to it when the mantissa is even.  Grids of more
  and more digits are tried; the first one with a point in the interval gives
  the digits, the nearer of two candidates winning and a tie going up.  The
  digits are then written positionally, without an exponent.
-/
import Neuroform.Numeral.Decimal
import Neuroform.Numeral.Reading

namespace Neuroform

/-- The numbers that round to one floating-point number: those between `low`
    and `high`, over one denominator, the ends included when `closed`. -/
structure RoundingInterval where
  low : Nat
  mid : Nat
  high : Nat
  den : Nat
  closed : Bool

namespace RoundingInterval

/-- The interval around `mantissa · 2 ^ exponent`: half way to each neighbour,
    in quarters of a unit in the last place. -/
def around (mantissa : Nat) (exponent : Int) (narrowBelow : Bool) : RoundingInterval :=
  let unit := powerOfTwo exponent.toNat
  let below := if narrowBelow then 1 else 2
  ⟨(4 * mantissa - below) * unit, 4 * mantissa * unit, (4 * mantissa + 2) * unit,
    4 * powerOfTwo (-exponent).toNat, mantissa % 2 = 0⟩

/-- The number in the middle. -/
def centre (i : RoundingInterval) : Fraction := ⟨i.mid, i.den⟩

/-- Whether `n · 10 ^ k` rounds to the number in the middle. -/
def contains (i : RoundingInterval) (n : Nat) (k : Int) : Bool :=
  let x := n * powerOfTen k.toNat * i.den
  let low := i.low * powerOfTen (-k).toNat
  let high := i.high * powerOfTen (-k).toNat
  if i.closed then low ≤ x && x ≤ high else low < x && x < high

/-- The point of the grid `10 ^ k` that stands for the middle, if the grid has
    one in the interval. -/
def gridPoint? (i : RoundingInterval) (k : Int) : Option Decimal :=
  let q := i.centre.shift k
  let low := q.num / q.den
  let lowFits := i.contains low k
  let highFits := q.num % q.den ≠ 0 && i.contains (low + 1) k
  let lowNearer := 2 * (q.num % q.den) < q.den
  if lowFits && (lowNearer || !highFits) then some ⟨low, k⟩
  else if highFits then some ⟨low + 1, k⟩
  else none

/-- The first grid with a point in the interval, among `fuel` grids that start
    at the exponent `k` and grow finer. -/
def search (i : RoundingInterval) : Nat → Int → Decimal
  | 0, k => ⟨i.centre.num / i.centre.den, k⟩
  | fuel + 1, k =>
    match i.gridPoint? k with
    | some d => d
    | none => search i fuel (k - 1)

end RoundingInterval

/-- More digits than any number of 64 bits needs. -/
def maximalDigits : Nat := 20

/-- The shortest decimal that reads back as `mantissa · 2 ^ exponent`. -/
def shortestDecimal (mantissa : Nat) (exponent : Int) (narrowBelow : Bool) : Decimal :=
  if mantissa = 0 then ⟨0, 0⟩ else
    let i := RoundingInterval.around mantissa exponent narrowBelow
    i.search maximalDigits (i.centre.leadingExponent + 1)

/-- Drops trailing zeros of the digits, counting them in the exponent. -/
def Decimal.trim (d : Decimal) : Decimal :=
  let digits := (Nat.toDigits 10 d.digits).reverse
  let zeros := if d.digits = 0 then 0 else (digits.takeWhile (· = '0')).length
  ⟨d.digits / powerOfTen zeros, d.exponent + zeros⟩

/-- Writes a decimal without an exponent: zeros fill the places up to the
    point, and there is no point where there is no fraction. -/
def Decimal.positional (d : Decimal) : String :=
  let digits := Nat.toDigits 10 d.digits
  if 0 ≤ d.exponent then
    String.ofList (digits ++ List.replicate d.exponent.toNat '0')
  else
    let places := (-d.exponent).toNat
    let padded := List.replicate (places + 1 - digits.length) '0' ++ digits
    let cut := padded.length - places
    String.ofList (padded.take cut ++ '.' :: padded.drop cut)

/-- The plain text of a number: the shortest decimal that reads back, written
    positionally; a negative zero keeps its sign. -/
def Reading.plain : Reading → String
  | .nan => "NaN"
  | .infinite negative => if negative then "-inf" else "inf"
  | .finite negative mantissa exponent narrowBelow =>
    let text := (shortestDecimal mantissa exponent narrowBelow).trim.positional
    if negative then "-" ++ text else text

end Neuroform
