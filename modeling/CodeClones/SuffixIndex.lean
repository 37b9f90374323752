import CodeClones.Access

/-! The suffixes of a sequence in lexicographic order, and how many elements each shares with the one
before it. -/

namespace CodeClones

structure SuffixIndex where
  starts : Array Nat
  /-- The length of the longest common beginning of a suffix and the one before it; 0 for the first. -/
  shared : Array Nat
deriving DecidableEq, Repr

namespace SuffixIndex

def size (s : SuffixIndex) : Nat := s.starts.size

variable {m : Type → Type} [Monad m] [Access m]

/-! ### Order -/

structure Filling where
  buffer : Array Nat
  length : Nat

def Filling.pushM (f : Filling) (a : Nat) : m Filling :=
  return ⟨← write f.buffer f.length a, f.length + 1⟩

/-- The positions in the order of the ranks `width` further on, given the order of all ranks. There is nothing behind
the last positions, so they come first. -/
def orderBehindM (width : Nat) (order buffer : Array Nat) : m (Array Nat) := do
  let n := order.size
  let short ← ((List.range n).drop (n - width)).foldlM Filling.pushM ⟨buffer, 0⟩
  let all ← order.toList.foldlM (fun f p => do
    if width ≤ p then f.pushM (← minus p width) else return f) short
  return all.buffer

/-- For each rank the number of positions that have a lower one, given that `classes` different ranks occur. -/
def countLowerM (classes : Nat) (ranks counts : Array Nat) : m (Array Nat) := do
  let counts ← (List.range (classes + 1)).foldlM (fun counts c => write counts c 0) counts
  let counts ← ranks.toList.foldlM (fun counts r => do
    write counts (r + 1) ((← read counts (r + 1)) + 1)) counts
  (List.range' 1 classes).foldlM (fun counts c => do
    write counts c ((← read counts c) + (← read counts (← minus c 1)))) counts

structure Placing where
  order : Array Nat
  next : Array Nat

def Placing.addM (ranks : Array Nat) (s : Placing) (p : Nat) : m Placing := do
  let r ← read ranks p
  let row ← read s.next r
  return ⟨← write s.order row p, ← write s.next r (row + 1)⟩

def rankRowsM (differ : Nat → Nat → m Bool) (order ranks : Array Nat) : m (Array Nat) :=
  (List.range' 1 (order.size - 1)).foldlM (fun ranks row => do
    let before ← read order (← minus row 1)
    let p ← read order row
    write ranks p ((← read ranks before) + if ← differ before p then 1 else 0)) ranks

/-- All positions in the order of their suffixes' first elements, their ranks in it, and room for the next order. -/
structure Doubling where
  order : Array Nat
  ranks : Array Nat
  spare : Array Nat
  behind : Array Nat
  counts : Array Nat

namespace Doubling

def highestRankM (d : Doubling) : m Nat := do
  read d.ranks (← read d.order (← minus d.order.size 1))

def differM (ranks : Array Nat) (width p q : Nat) : m Bool := do
  if (← read ranks p) ≠ (← read ranks q) then return true
  else return ranks[p + width]? ≠ ranks[q + width]?

def roundM (width : Nat) (d : Doubling) : m Doubling := do
  let behind ← orderBehindM width d.order d.behind
  let classes := (← d.highestRankM) + 1
  let counts ← countLowerM classes d.ranks d.counts
  let placing ← behind.toList.foldlM (Placing.addM d.ranks) ⟨d.order, counts⟩
  let spare ← write d.spare (← read placing.order 0) 0
  let ranks ← rankRowsM (differM d.ranks width) placing.order spare
  return ⟨placing.order, ranks, d.ranks, behind, placing.next⟩

/-- Goes on until all ranks are different, or as many elements are taken into account as there are. -/
def refineM (n width : Nat) (hw : 0 < width) (d : Doubling) : m Doubling := do
  if (← d.highestRankM) < (← minus n 1) then
    let next ← d.roundM width
    if h : n ≤ 2 * width then return next
    else refineM n (2 * width) (by omega) next
  else return d
termination_by n - width

end Doubling

def sortPositionsM (keys : Array Nat) : m (Array Nat) := do
  let keyed ← (List.range keys.size).mapM fun p => return (← read keys p, p)
  return ((keyed.mergeSort fun a b => a.1 ≤ b.1).map (·.2)).toArray

/-- The order of all suffixes, given an order of their first elements. Which one that is makes no difference. -/
def orderFromM (keys order : Array Nat) : m (Array Nat) := do
  let n := keys.size
  let zeros := Array.replicate n 0
  let ranks ← rankRowsM (fun p q => return (← read keys p) ≠ (← read keys q)) order zeros
  let d ← Doubling.refineM n 1 Nat.one_pos ⟨order, ranks, zeros, zeros, Array.replicate (n + 1) 0⟩
  return d.order

def orderFrom (keys order : Array Nat) : Array Nat := Id.run (orderFromM keys order)

def orderM (keys : Array Nat) : m (Array Nat) := do
  if keys.size = 0 then return #[]
  else orderFromM keys (← sortPositionsM keys)

/-! ### Common beginnings -/

def commonLengthM (keys : Array Nat) (p q h : Nat) : m Nat := do
  if p + h < keys.size ∧ q + h < keys.size then
    if (← read keys (p + h)) = (← read keys (q + h)) then commonLengthM keys p q (h + 1) else return h
  else return h
termination_by keys.size - (p + h)

def rowsM (starts : Array Nat) : m (Array Nat) :=
  (List.range starts.size).foldlM (fun rows row => do write rows (← read starts row) row)
    (Array.replicate starts.size 0)

structure Sharing where
  shared : Array Nat
  least : Nat

/-- Finds the shared length of the suffix at a position. It is at most one less than that of the position
before. -/
def Sharing.addM (keys starts rows : Array Nat) (s : Sharing) (position : Nat) : m Sharing := do
  match ← read rows position with
  | 0 => return { s with least := 0 }
  | row + 1 =>
      let h ← commonLengthM keys position (← read starts row) s.least
      return ⟨← write s.shared (row + 1) h, h - 1⟩

def sharedM (keys starts : Array Nat) : m (Array Nat) := do
  let rows ← rowsM starts
  let s ← (List.range starts.size).foldlM (Sharing.addM keys starts rows) ⟨Array.replicate starts.size 0, 0⟩
  return s.shared

def buildM (keys : Array Nat) : m SuffixIndex := do
  let starts ← orderM keys
  return ⟨starts, ← sharedM keys starts⟩

def build (keys : Array Nat) : SuffixIndex := Id.run (buildM keys)

end SuffixIndex

end CodeClones
