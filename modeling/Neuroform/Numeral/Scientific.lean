/-
  Neuroform — scientific notation with a fixed number of places.

  A number is written as one digit, `places` further digits and a decimal
  exponent.  The digits are those of the exact value, rounded once, a half
  going to the even neighbour.
-/
import Neuroform.Numeral.Decimal
import Neuroform.Numeral.Reading

namespace Neuroform

/-- How scientific notation spells what is not a digit: the mark before the
    exponent, and the words for what is no finite number. -/
structure ScientificStyle where
  places : Nat
  mark : String
  nan : String
  infinity : String

namespace ScientificStyle

/-- The digits and exponent of a positive fraction, rounded to `places + 1`
    significant digits; rounding up to the next power of ten moves the
    exponent. -/
def round (s : ScientificStyle) (q : Fraction) : Decimal :=
  let k := q.leadingExponent
  let n := (q.shift (k - s.places)).roundHalfEven
  if n = powerOfTen (s.places + 1) then ⟨powerOfTen s.places, k + 1⟩ else ⟨n, k⟩

/-- The sign that a number is written with. -/
def signText (negative : Bool) : String := if negative then "-" else ""

/-- Writes significant digits with a point after the first. -/
def pointed (digits : List Char) : String :=
  match digits with
  | [] => ""
  | [d] => String.ofList [d]
  | d :: ds => String.ofList (d :: '.' :: ds)

/-- Writes what a number denotes. -/
def write (s : ScientificStyle) : Reading → String
  | .nan => s.nan
  | .infinite negative => signText negative ++ s.infinity
  | .finite negative mantissa exponent _ =>
    let d : Decimal :=
      if mantissa = 0 then ⟨0, 0⟩ else s.round (Fraction.ofBinary mantissa exponent)
    let digits := (Nat.toDigits 10 d.digits)
    let padded := digits ++ List.replicate (s.places + 1 - digits.length) '0'
    signText negative ++ pointed padded ++ s.mark ++ toString d.exponent

end ScientificStyle
end Neuroform
