import CodeClones.SuffixIndex

/-! Maximal repeats: runs that occur more than once and cannot be made longer without losing an
occurrence. They are the intervals of rows in the order of suffixes that share more elements with each
other than with the rows around them, provided that different elements stand before their suffixes. -/

namespace CodeClones

variable {m : Type → Type} [Monad m] [Access m]

structure Repeat where
  length : Nat
  positions : List Nat
deriving DecidableEq, Repr

inductive LeftContext
  | unset
  | uniform (key : Nat)
  /-- Different elements, or none before one of the suffixes. -/
  | diverse
deriving DecidableEq, Repr

namespace LeftContext

def ofPositionM (keys : Array Nat) (position : Nat) : m LeftContext :=
  match position with
  | 0 => return diverse
  | before + 1 => return uniform (← read keys before)

def ofPosition (keys : Array Nat) (position : Nat) : LeftContext := Id.run (ofPositionM keys position)

def merge : LeftContext → LeftContext → LeftContext
  | unset, x => x
  | x, unset => x
  | uniform a, uniform b => if a = b then uniform a else diverse
  | _, _ => diverse

theorem merge_assoc (x y z : LeftContext) : (x.merge y).merge z = x.merge (y.merge z) := by
  cases x <;> cases y <;> cases z <;> simp only [merge] <;> grind [merge]

end LeftContext

namespace Repeat

/-- Rows from `first` on, with no fewer than `shared` elements in common. -/
structure OpenInterval where
  shared : Nat
  first : Nat
  left : LeftContext
deriving DecidableEq, Repr

structure Interval where
  shared : Nat
  first : Nat
  stop : Nat
  left : LeftContext
deriving DecidableEq, Repr

structure Scan where
  /-- The intervals that the last row belongs to, from the innermost to the outermost. -/
  stack : List OpenInterval
  found : List Interval
deriving DecidableEq, Repr

/-- Ends the intervals that share more than `shared` elements, before row `row`. The rows that are to join
an interval begin with `first` and have the context `left`. -/
def closeAbove (shared row first : Nat) (left : LeftContext) (found : List Interval) :
    List OpenInterval → Scan
  | [] => ⟨[⟨shared, first, left⟩], found⟩
  | top :: outer =>
      if shared < top.shared then
        let left := top.left.merge left
        closeAbove shared row top.first left (⟨top.shared, top.first, row, left⟩ :: found) outer
      else if top.shared = shared then ⟨{ top with left := top.left.merge left } :: outer, found⟩
      else ⟨⟨shared, first, left⟩ :: top :: outer, found⟩

/-- What a row shares with the one before it; nothing behind the last row. -/
def sharedAtM (index : SuffixIndex) (row : Nat) : m Nat :=
  if row < index.size then read index.shared row else return 0

def Scan.stepM (keys : Array Nat) (index : SuffixIndex) (scan : Scan) (row : Nat) : m Scan := do
  let shared ← sharedAtM index (row + 1)
  let left ← LeftContext.ofPositionM keys (← read index.starts row)
  return closeAbove shared (row + 1) row left scan.found scan.stack

def intervalsM (keys : Array Nat) (index : SuffixIndex) : m (List Interval) := do
  let scan ← (List.range index.size).foldlM (Scan.stepM keys index) ⟨[⟨0, 0, .unset⟩], []⟩
  return scan.found

def intervals (keys : Array Nat) (index : SuffixIndex) : List Interval := Id.run (intervalsM keys index)

def ofIntervalM (index : SuffixIndex) (i : Interval) : m Repeat := do
  let rows ← slice index.starts i.first i.stop
  return ⟨i.shared, rows.toList.mergeSort⟩

def ofInterval (index : SuffixIndex) (i : Interval) : Repeat := Id.run (ofIntervalM index i)

def comesBefore (a b : Repeat) : Bool :=
  b.length < a.length || a.length = b.length && !decide (b.positions < a.positions)

def allM (keys : Array Nat) (index : SuffixIndex) (minimum : Nat) : m (List Repeat) := do
  let maximal := (← intervalsM keys index).filter fun i => max minimum 1 ≤ i.shared ∧ i.left = .diverse
  return (← maximal.mapM (ofIntervalM index)).mergeSort comesBefore

def all (keys : Array Nat) (index : SuffixIndex) (minimum : Nat) : List Repeat :=
  Id.run (allM keys index minimum)

end Repeat

end CodeClones
