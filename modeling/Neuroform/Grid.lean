/-
  Neuroform — arrays of numbers.

  A `Grid` is a box of dimensions `shape` with a value at every position, kept
  in row-major order.  `ofFn` makes a grid from its values, `value` reads one;
  all other operations are described by what they read.  A `Table` is a grid
  of two axes: one row per sample of a batch, or a matrix.
-/
import Neuroform.Layout
import Neuroform.Position

namespace Neuroform

/-- A value at every position of a box, in row-major order. -/
structure Grid (α : Type) where
  shape : List Nat
  cells : Array α
  size_cells : cells.size = volume shape

namespace Grid
variable {α β : Type}

/-- The number of axes. -/
def rank (g : Grid α) : Nat := g.shape.length

/-- The number of values. -/
def size (g : Grid α) : Nat := g.cells.size

/-- The values in row-major order. -/
def toList (g : Grid α) : List α := g.cells.toList

/-- The grid with the given value at each position. -/
def ofFn (shape : List Nat) (f : List Nat → α) : Grid α where
  shape
  cells := ((positions shape).map f).toArray
  size_cells := by simp [length_positions]

/-- The grid with the given value at each position, if its shape is one that
    arrays have. -/
def arrange (shape : List Nat) (f : List Nat → α) : Outcome (Grid α) := do
  require (addressable shape) Cause.arrangement
  return ofFn shape f

/-- The value at a position; zero outside of the box. -/
def value [Zero α] (g : Grid α) (position : List Nat) : α :=
  g.cells.getD (offset g.shape position) 0

/-- The values as a grid, if there are as many as the shape has positions. -/
def ofArray? (shape : List Nat) (cells : Array α) : Option (Grid α) :=
  if h : cells.size = volume shape then some ⟨shape, cells, h⟩ else none

/-- The same value everywhere. -/
def fill (shape : List Nat) (a : α) : Grid α where
  shape
  cells := Array.replicate (volume shape) a
  size_cells := by simp

/-- The grid without axes that holds one value. -/
def single (a : α) : Grid α := fill [] a

/-- A grid of one axis. -/
def ofList (xs : List α) : Grid α where
  shape := [xs.length]
  cells := xs.toArray
  size_cells := by simp [volume]

/-- A function applied to each value. -/
def map (f : α → β) (g : Grid α) : Grid β where
  shape := g.shape
  cells := g.cells.map f
  size_cells := by simp [g.size_cells]

/-- The same values in row-major order over other dimensions. -/
def reshape (g : Grid α) (shape : List Nat) : Outcome (Grid α) :=
  if h : addressable shape ∧ volume shape = g.cells.size then .ok ⟨shape, g.cells, h.2.symm⟩
  else refuse Cause.arrangement

/-! ## Channel layouts -/

/-- The grid with its channel axis moved to the end. -/
def toLast [Zero α] (l : Layout) (g : Grid α) : Grid α :=
  ofFn (l.toLast g.shape) fun p => g.value (l.fromLast p)

/-- The grid with its last axis moved to where the layout keeps channels. -/
def fromLast [Zero α] (l : Layout) (g : Grid α) : Grid α :=
  ofFn (l.fromLast g.shape) fun p => g.value (l.toLast p)

/-- Runs a function of channels-last samples on one of any layout.  A
    sample without axes has no channels to move to the front, which is a
    fault. -/
def throughLast [Zero α] (l : Layout) (f : Grid α → Outcome (Grid α)) (g : Grid α) :
    Outcome (Grid α) :=
  if l = .channelsFirst ∧ g.rank = 0 then fault
  else do return (← f (g.toLast l)).fromLast l

/-! ## Stretching

An axis of length one stretches to any length, and missing leading axes are
added. -/

/-- Whether dimensions, given from the last axis on, stretch to others. -/
def stretchesRev : List Nat → List Nat → Bool
  | [], _ => true
  | d :: ds, t :: ts => (d = t || d = 1) && stretchesRev ds ts
  | _ :: _, [] => false

/-- Whether one shape stretches to another. -/
def stretches (shape target : List Nat) : Bool :=
  stretchesRev shape.reverse target.reverse

/-- The dimensions that two shapes, given from the last axis on, both stretch
    to. -/
def commonRev : List Nat → List Nat → Option (List Nat)
  | [], ts => some ts
  | ds, [] => some ds
  | d :: ds, t :: ts =>
    if d = t ∨ t = 1 then (commonRev ds ts).map (d :: ·)
    else if d = 1 then (commonRev ds ts).map (t :: ·)
    else none

/-- The shape that two shapes both stretch to. -/
def commonShape? (shape target : List Nat) : Option (List Nat) :=
  (commonRev shape.reverse target.reverse).map List.reverse

/-- The position that a stretched grid reads: extra leading coordinates are
    dropped and axes of length one are read at zero. -/
def stretchedPosition (shape position : List Nat) : List Nat :=
  List.zipWith (fun d i => if d = 1 then 0 else i) shape
    (position.drop (position.length - shape.length))

/-- The value that a stretched grid has at a position. -/
def stretchedValue [Zero α] (g : Grid α) (position : List Nat) : α :=
  g.value (stretchedPosition g.shape position)

/-- Combines two grids, both stretched to a common shape; without one it is a
    fault. -/
def combine [Zero α] (f : α → α → α) (x y : Grid α) : Outcome (Grid α) := do
  let shape ← orFault (commonShape? x.shape y.shape)
  return ofFn shape fun p => f (x.stretchedValue p) (y.stretchedValue p)

/-- Combines a grid with another that is stretched to its shape; it is a fault
    if the other does not stretch. -/
def absorb [Zero α] (f : α → α → α) (x y : Grid α) : Outcome (Grid α) :=
  if stretches y.shape x.shape then
    .ok (ofFn x.shape fun p => f (x.value p) (y.stretchedValue p))
  else fault

/-! ## Samples of a batch -/

/-- The sample at place `i` of the first axis. -/
def sample [Zero α] (g : Grid α) (i : Nat) : Grid α :=
  ofFn g.shape.tail fun p => g.value (i :: p)

/-- The samples along the first axis; a grid without axes has none, which is a
    fault. -/
def samples [Zero α] (g : Grid α) : Outcome (List (Grid α)) :=
  match g.shape with
  | [] => fault
  | batch :: _ => .ok ((List.range batch).map g.sample)

/-- Samples of one shape stacked along a new first axis. -/
def stack [Zero α] (gs : List (Grid α)) : Outcome (Grid α) :=
  match gs with
  | [] => refuse LayerCause.emptyBatch
  | g :: rest =>
    if rest.all fun h => h.shape = g.shape then
      arrange (gs.length :: g.shape) fun p =>
        match p with
        | i :: q => (gs.getD i g).value q
        | [] => 0
    else refuse Cause.arrangement

/-- Runs a function on each sample of a batch and stacks the results. -/
def mapSamples [Zero α] (f : Grid α → Outcome (Grid α)) (g : Grid α) : Outcome (Grid α) := do
  stack (← (← g.samples).mapM f)

/-! ## Concatenation -/

/-- The dimensions of a part on the axes other than `axis`; a part without that
    axis is a fault. -/
def otherDims (axis : Nat) (shape : List Nat) : Outcome (List Nat) :=
  if axis < shape.length then .ok (shape.eraseIdx axis) else fault

/-- The value at a position of the concatenation along `axis`: the part that
    holds the coordinate is read at the rest of it. -/
def concatenatedValue [Zero α] (axis : Nat) : List (Grid α) → List Nat → α
  | [], _ => 0
  | g :: gs, p =>
    let i := p.getD axis 0
    let d := g.shape.getD axis 0
    if i < d then g.value p else concatenatedValue axis gs (p.set axis (i - d))

/-- Grids that agree on all other axes, one after the other along `axis`.  The
    parts are compared with the first in turn. -/
def concatenate [Zero α] (axis : Nat) (gs : List (Grid α)) : Outcome (Grid α) :=
  match gs with
  | [] => refuse Cause.arrangement
  | g :: rest => do
    let common ← otherDims axis g.shape
    rest.forM fun h => do require ((← otherDims axis h.shape) = common) Cause.arrangement
    let joined ← Word.sum (gs.map fun h => h.shape.getD axis 0)
    arrange (g.shape.set axis joined) (concatenatedValue axis gs)

end Grid

/-! ## Tables -/

/-- Rows of equally many values. -/
structure Table (α : Type) where
  rows : Nat
  columns : Nat
  cells : Array α
  size_cells : cells.size = rows * columns

namespace Table
variable {α β : Type}

/-- The table as a grid of two axes. -/
def toGrid (t : Table α) : Grid α where
  shape := [t.rows, t.columns]
  cells := t.cells
  size_cells := by simp [t.size_cells, volume]

/-- The grid laid out as a table, if it has as many values. -/
def ofGrid (rows columns : Nat) (g : Grid α) : Outcome (Table α) :=
  if h : g.cells.size = rows * columns then .ok ⟨rows, columns, g.cells, h⟩
  else refuse Cause.arrangement

/-- The table with the given value in each cell. -/
def ofFn (rows columns : Nat) (f : Nat → Nat → α) : Table α where
  rows
  columns
  cells := (Grid.ofFn [rows, columns] fun p => f (p.getD 0 0) (p.getD 1 0)).cells
  size_cells := by simp [Grid.ofFn, volume, length_positions]

/-- The value in a cell; zero outside of the table. -/
def value [Zero α] (t : Table α) (i j : Nat) : α := t.cells.getD (i * t.columns + j) 0

/-- A table of zeros. -/
def zeros [Zero α] (rows columns : Nat) : Table α where
  rows
  columns
  cells := Array.replicate (rows * columns) 0
  size_cells := by simp

/-- A function applied to each value. -/
def map (f : α → β) (t : Table α) : Table β where
  rows := t.rows
  columns := t.columns
  cells := t.cells.map f
  size_cells := by simp [t.size_cells]

/-- Rows and columns exchanged. -/
def transpose [Zero α] (t : Table α) : Table α :=
  ofFn t.columns t.rows fun i j => t.value j i

/-- A column as a table. -/
def ofColumn (xs : List α) : Table α where
  rows := xs.length
  columns := 1
  cells := xs.toArray
  size_cells := by simp

/-- One row as a list. -/
def row [Zero α] (t : Table α) (i : Nat) : List α := (List.range t.columns).map (t.value i)

/-- The sum of the products of values at equal places, from the left. -/
def dot [Zero α] [Add α] [Mul α] (n : Nat) (f g : Nat → α) : α :=
  (List.range n).foldl (fun acc k => acc + f k * g k) 0

/-- The matrix product; the inner sizes are those of the first table. -/
def mul [Zero α] [Add α] [Mul α] (x y : Table α) : Table α :=
  ofFn x.rows y.columns fun i j => dot x.columns (x.value i) fun k => y.value k j

/-- The table with some of its columns, in the given order; a column outside of
    the table is a fault. -/
def selectColumns [Zero α] (t : Table α) (columns : List Nat) : Outcome (Table α) :=
  if columns.all (· < t.columns) then
    .ok (ofFn t.rows columns.length fun i j => t.value i (columns.getD j 0))
  else fault

end Table
end Neuroform
