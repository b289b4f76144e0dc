/-
  Neuroform — texts of lists and pairs.
-/

namespace Neuroform.Listing

/-- Entries between brackets, separated by a comma and a blank. -/
def bracketed (entries : List String) : String :=
  "[" ++ ", ".intercalate entries ++ "]"

/-- A list of sizes between brackets. -/
def sizes (ns : List Nat) : String := bracketed (ns.map toString)

/-- A list of integers between brackets. -/
def integers (ns : List Int) : String := bracketed (ns.map toString)

/-- Two sizes between parentheses. -/
def pair (m n : Nat) : String := s!"({m}, {n})"

/-- Entries between parentheses; a single entry is followed by a comma. -/
def tuple (entries : List String) : String :=
  let trailing := if entries.length = 1 then "," else ""
  "(" ++ ", ".intercalate entries ++ trailing ++ ")"

end Neuroform.Listing
