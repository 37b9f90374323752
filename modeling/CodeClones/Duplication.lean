import CodeClones.Position

/-! Duplications: runs of tokens that occur more than once, and where they occur. -/

namespace CodeClones

structure Occurrence where
  file : Nat
  path : String
  first : Position
  last : Position
  startToken : Nat
deriving DecidableEq, Repr

structure Duplication where
  tokens : Nat
  lines : Nat
  hash : UInt64
  occurrences : List Occurrence
  fragment : String
deriving DecidableEq, Repr

namespace Occurrence

def lineCount (o : Occurrence) : Nat := min (o.last.line - o.first.line + 1) maxCoordinate

def compare (a b : Occurrence) : Ordering :=
  (Ord.compare a.file b.file).then <| (Ord.compare a.first.line b.first.line).then <|
    (Ord.compare a.first.column b.first.column).then (Ord.compare a.startToken b.startToken)

def compareHeads (a b : Occurrence) : Ordering :=
  (Ord.compare a.file b.file).then <| (Ord.compare a.first.line b.first.line).then
    (Ord.compare a.first.column b.first.column)

def startingPoint (o : Occurrence) : Nat × Nat := (o.file, o.startToken)

end Occurrence

namespace Duplication

def compareHeads : List Occurrence → List Occurrence → Ordering
  | a :: _, b :: _ => a.compareHeads b
  | [], [] => .eq
  | [], _ :: _ => .lt
  | _ :: _, [] => .gt

/-- The order of a report: longer runs first, then by the first occurrence, the hash and all tokens at which
occurrences start. -/
def compare (a b : Duplication) : Ordering :=
  (Ord.compare b.tokens a.tokens).then <| (compareHeads a.occurrences b.occurrences).then <|
    (Ord.compare a.hash b.hash).then <|
      List.compareLex (fun x y : Nat × Nat => (Ord.compare x.1 y.1).then (Ord.compare x.2 y.2))
        (a.occurrences.map (·.startingPoint)) (b.occurrences.map (·.startingPoint))

end Duplication

end CodeClones
