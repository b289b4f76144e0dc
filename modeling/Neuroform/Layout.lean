/-
  Neuroform — where a sample keeps its channels.

  A sample has spatial axes and one channel axis, which comes first or last.
  Everything that looks at positions works channels-last; `toLast` and
  `fromLast` move one entry per axis (sizes, coordinates or axis numbers) there
  and back.
-/

namespace Neuroform

/-- The place of the channel axis in a sample. -/
inductive Layout where
  | channelsFirst
  | channelsLast
  deriving DecidableEq, Inhabited

namespace Layout

/-- The name of a layout in layer options. -/
def name : Layout → String
  | channelsFirst => "channels_first"
  | channelsLast => "channels_last"

/-- The channel axis of a sample of positive rank. -/
def channelAxis : Layout → Nat → Nat
  | channelsFirst, _ => 0
  | channelsLast, rank => rank - 1

/-- The first spatial axis, and the one after the last. -/
def spatialAxes : Layout → Nat → Nat × Nat
  | channelsFirst, rank => (1, rank)
  | channelsLast, rank => (0, rank - 1)

variable {β : Type}

/-- Moves the entry of the channel axis to the end. -/
def toLast : Layout → List β → List β
  | channelsFirst, c :: hw => hw ++ [c]
  | channelsFirst, [] => []
  | channelsLast, xs => xs

/-- Moves the last entry to the channel axis. -/
def fromLast : Layout → List β → List β
  | channelsFirst, xs => xs.getLast?.toList ++ xs.dropLast
  | channelsLast, xs => xs

/-- The entries of the spatial axes. -/
def spatial (l : Layout) (xs : List β) : List β := (l.toLast xs).dropLast

/-- The entry of the channel axis, if there is an axis at all. -/
def channel? (l : Layout) (xs : List β) : Option β := (l.toLast xs).getLast?

/-- Puts a channel entry to the entries of the spatial axes. -/
def join (l : Layout) (c : β) (hw : List β) : List β := l.fromLast (hw ++ [c])

end Layout
end Neuroform
