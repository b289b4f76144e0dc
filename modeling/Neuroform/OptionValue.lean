/-
  Neuroform — values of layer options.

  A layer shows its configuration as named options.  Values are compared with
  the defaults that a conversion rule supports (`agrees`), whole numbers and
  fractions by what they denote.  Whole numbers are signed words, also those
  that are sizes.
-/
import Neuroform.Listing
import Neuroform.Scalar
import Neuroform.Word

namespace Neuroform

/-- The value of a layer option, over a type of fractional numbers. -/
inductive OptionValue (ν : Type) where
  | none
  | bool (b : Bool)
  | int (i : Int)
  | float (x : ν)
  | ints (is : List Int)
  | str (s : String)
  deriving Inhabited

namespace OptionValue
variable {ν : Type}

/-- Values of equal kind and content. -/
def beq [BEq ν] : OptionValue ν → OptionValue ν → Bool
  | none, none => true
  | bool a, bool b => a == b
  | int a, int b => a == b
  | float a, float b => a == b
  | ints a, ints b => a == b
  | str a, str b => a == b
  | _, _ => false

instance [BEq ν] : BEq (OptionValue ν) := ⟨beq⟩

/-- Equality up to the kind of number. -/
def agrees [BEq ν] [IntCast ν] : OptionValue ν → OptionValue ν → Bool
  | int a, float b => (a : ν) == b
  | float a, int b => (b : ν) == a
  | a, b => a == b

/-- Whether a value is missing. -/
def isNone : OptionValue ν → Bool
  | none => true
  | _ => false

/-- The entries of a list value. -/
def ints? : OptionValue ν → Option (List Int)
  | ints is => some is
  | _ => Option.none

/-- A size as a value, which is a signed word. -/
def size (n : Nat) : OptionValue ν := int (Word.signed n)

/-- A list of sizes as a value, which holds signed words. -/
def sizes (ns : List Nat) : OptionValue ν := ints (ns.map Word.signed)

/-- A number that may be missing. -/
def float? (x : Option ν) : OptionValue ν := x.elim none float

/-- A text that may be missing. -/
def str? (s : Option String) : OptionValue ν := s.elim none str

/-- The text of a value. -/
def text [Printed ν] : OptionValue ν → String
  | none => "None"
  | bool b => if b then "true" else "false"
  | int i => toString i
  | float x => Printed.option x
  | ints is => Listing.tuple (is.map toString)
  | str s => s!"'{s}'"

end OptionValue
end Neuroform
