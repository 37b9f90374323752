/-! Chains: positions of a run that are far enough apart for its occurrences not to overlap. -/

namespace CodeClones.Duplication

/-- Goes through the positions from left to right, behind those already kept, which are listed from last to
first. A position that must be kept is kept; another one if it leaves room for the run on both sides. -/
def chainOnto (length : Nat) (kept forced : List Nat) : List Nat → List Nat
  | [] => kept.reverse
  | p :: following =>
      if forced.head? = some p then chainOnto length (p :: kept) forced.tail following
      else if kept.head?.all (· + length ≤ p) && forced.head?.all (p + length ≤ ·) then
        chainOnto length (p :: kept) forced following
      else chainOnto length kept forced following

/-- A chain that holds both positions of a pair. No position can be added to it. -/
def chainThrough (positions : List Nat) (length : Nat) (pair : Nat × Nat) : List Nat :=
  chainOnto length [] [pair.1, pair.2] positions

def holds (chain : List Nat) (pair : Nat × Nat) : Bool := chain.contains pair.1 && chain.contains pair.2

def addChain (positions : List Nat) (length : Nat) (chains : List (List Nat)) (pair : Nat × Nat) :
    List (List Nat) :=
  if chains.any (holds · pair) then chains else chains ++ [chainThrough positions length pair]

def coverPairs (positions : List Nat) (length : Nat) (pairs : List (Nat × Nat)) : List (List Nat) :=
  pairs.foldl (addChain positions length) []

end CodeClones.Duplication
