/-
  Neuroform — what a binary floating-point number denotes.

  A word of bits is read into a `Reading`: not a number, an infinity, or a sign
  with the exact value `mantissa · 2 ^ exponent`.  Everything that writes a
  number starts from its reading, so that digits are chosen by exact arithmetic
  on natural numbers.
-/
import Neuroform.Numeral.Power

namespace Neuroform

/-- The layout of a binary floating-point word: one sign bit, `exponentBits`
    bits of exponent, `fractionBits` bits of fraction. -/
structure BinaryFormat where
  exponentBits : Nat
  fractionBits : Nat

/-- Numbers of 32 bits. -/
def BinaryFormat.single : BinaryFormat := ⟨8, 23⟩

/-- Numbers of 64 bits. -/
def BinaryFormat.double : BinaryFormat := ⟨11, 52⟩

/-- What a floating-point word denotes.  `narrowBelow` says that the next
    number towards zero is half as far away as the next one away from it, which
    happens at powers of two. -/
inductive Reading where
  | nan
  | infinite (negative : Bool)
  | finite (negative : Bool) (mantissa : Nat) (exponent : Int) (narrowBelow : Bool)

/-- Reads a word in the given format. -/
def Reading.ofBits (f : BinaryFormat) (bits : Nat) : Reading :=
  let fraction := bits % powerOfTwo f.fractionBits
  let biased := bits / powerOfTwo f.fractionBits % powerOfTwo f.exponentBits
  let negative := bits / powerOfTwo (f.fractionBits + f.exponentBits) % 2 == 1
  let shift : Int := (powerOfTwo (f.exponentBits - 1) - 1 + f.fractionBits : Nat)
  if biased = powerOfTwo f.exponentBits - 1 then
    if fraction = 0 then .infinite negative else .nan
  else if biased = 0 then
    .finite negative fraction (1 - shift) false
  else
    .finite negative (powerOfTwo f.fractionBits + fraction) (biased - shift)
      (fraction = 0 && biased > 1)

/-- The reading of a number of 32 bits. -/
def Reading.ofSingle (x : Float32) : Reading := .ofBits .single x.toBits.toNat

/-- The reading of a number of 64 bits. -/
def Reading.ofDouble (x : Float) : Reading := .ofBits .double x.toBits.toNat

end Neuroform
