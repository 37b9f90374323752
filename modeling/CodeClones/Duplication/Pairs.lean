import CodeClones.Access

/-! Pairs of occurrences that are maximal: apart from each other, and with different elements before them
and different elements behind them. -/

namespace CodeClones.Duplication

variable {m : Type → Type} [Monad m] [Access m]

def beforeM (keys : Array Nat) (position : Nat) : m (Option Nat) :=
  match position with
  | 0 => return none
  | n + 1 => do
      require (n < keys.size) .index
      return keys[n]?

def before? (keys : Array Nat) (position : Nat) : Option Nat := Id.run (beforeM keys position)

@[simp] theorem before?_zero (keys : Array Nat) : before? keys 0 = none := rfl

@[simp] theorem before?_succ (keys : Array Nat) (n : Nat) : before? keys (n + 1) = keys[n]? := rfl

def behind? (keys : Array Nat) (length position : Nat) : Option Nat := keys[position + length]?

def ordered (x y : Nat) : Nat × Nat := if x < y then (x, y) else (y, x)

def bucketsM (keys : Array Nat) (positions : List Nat) : m (List (List Nat)) := do
  let coded ← positions.mapM fun p => return ((← beforeM keys p).elim 0 (· + 1), p)
  return ((coded.mergeSort fun x y => x.1 ≤ y.1).splitBy fun x y => x.1 = y.1).map (·.map (·.2))

def buckets (keys : Array Nat) (positions : List Nat) : List (List Nat) := Id.run (bucketsM keys positions)

def pairsAcross : List (List Nat) → List (Nat × Nat)
  | [] => []
  | bucket :: others =>
      let other := others.flatten
      bucket.flatMap (fun x => other.map (ordered x)) ++ pairsAcross others

def partsBehind (keys : Array Nat) (length : Nat) (pair : Nat × Nat) : Bool :=
  pair.1 + length ≤ pair.2 && behind? keys length pair.1 ≠ behind? keys length pair.2

def pairLE (p q : Nat × Nat) : Bool := p.1 < q.1 || p.1 = q.1 && p.2 ≤ q.2

def maximalPairsIn (keys : Array Nat) (length : Nat) (buckets : List (List Nat)) : List (Nat × Nat) :=
  ((pairsAcross buckets).filter (partsBehind keys length)).mergeSort pairLE

def maximalPairs (keys : Array Nat) (positions : List Nat) (length : Nat) : List (Nat × Nat) :=
  maximalPairsIn keys length (buckets keys positions)

end CodeClones.Duplication
