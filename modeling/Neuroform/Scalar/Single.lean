/-
  Neuroform — arithmetic on numbers of 32 bits.

  The field operations and comparisons are those of the machine.  Functions
  that the machine lacks in this width are computed in 64 bits and rounded.
  Arrays are added up as `Neuroform.Scalar.Summation` says.
-/
import Neuroform.Numeral.Scientific
import Neuroform.Numeral.Shortest
import Neuroform.Scalar
import Neuroform.Scalar.Summation

namespace Neuroform

namespace Single

/-- `exp x - 1` in 64 bits: the error of `exp x` near zero is divided out by
    its logarithm. -/
def expm1 (x : Float) : Float :=
  let u := x.exp
  if u == 1.0 then x
  else if u - 1.0 == -1.0 then -1.0
  else if u == u && u - u != 0.0 then u
  else (u - 1.0) * x / u.log

/-- The logarithm of `1 + x` in 64 bits: the rounding of `1 + x` is divided
    out. -/
def log1p (x : Float) : Float :=
  let u := 1.0 + x
  if u == 1.0 then x
  else if u == u && u - u != 0.0 then u.log
  else u.log * x / (u - 1.0)

/-- The style of a number rounded to two places. -/
def briefStyle : ScientificStyle := ⟨2, "E", "NaN", "inf"⟩

end Single

instance instNatCastSingle : NatCast Float32 := ⟨Float32.ofNat⟩

instance instIntCastSingle : IntCast Float32 := ⟨Float32.ofInt⟩

instance instIntCastDouble : IntCast Float := ⟨Float.ofInt⟩

instance : Elementary Float32 where
  exp := Float32.exp
  expm1 x := (Single.expm1 x.toFloat).toFloat32
  log1p x := (Single.log1p x.toFloat).toFloat32
  tanh := Float32.tanh
  sqrt := Float32.sqrt
  wholePart x := x.floor.toUInt64.toNat
  lowest := -1.0 / 0.0
  arraySum := Summation.ofArray
  arraySum_eq_foldl _ _ _ _ _ := fun h₀ h₁ h₂ => Summation.ofArray_eq_foldl h₀ h₁ h₂ _ _ _

instance : Printed Float32 where
  plain x := (Reading.ofSingle x).plain
  option x := (Reading.ofDouble x.toFloat).plain
  brief x := Single.briefStyle.write (.ofSingle x)

instance : Printed Float where
  plain x := (Reading.ofDouble x).plain
  option x := (Reading.ofDouble x).plain
  brief x := Single.briefStyle.write (.ofDouble x)

end Neuroform
