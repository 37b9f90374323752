import CodeClones.Corpus
import CodeClones.Duplication
import CodeClones.Duplication.Chain
import CodeClones.Duplication.Hash
import CodeClones.Duplication.Pairs
import CodeClones.Repeat

/-! From maximal repeats to duplications. A repeat is reported through its maximal pairs: every other pair of
its occurrences belongs to a longer repeat, or overlaps once it is made as long as it can be. -/

namespace CodeClones.Duplication

variable {m : Type → Type} [Monad m] [Access m]

def fileOfRun (c : Corpus) (length position : Nat) : Except MisplacedRun (Nat × CorpusFile) :=
  let file := c.fileAt position
  match c.files[file]? with
  | none => .error (.pastEnd position)
  | some f =>
      if length = 0 ∨ position < f.start ∨ f.stop < position + length then
        .error (.acrossFiles position length f.path)
      else .ok (file, f)

def occurrenceAtM (c : Corpus) (length position : Nat) : ExceptT MisplacedRun m Occurrence := do
  let (file, f) ← fileOfRun c length position
  require (file < c.files.size) .index
  let start ← minus position file
  let last ← minus (start + length) 1
  match c.tokens[start]?, c.tokens[last]? with
  | some first, some last =>
      return ⟨f.inputIndex, f.path, first.first, last.last, ← minus position f.start⟩
  | _, _ => throw (.withoutToken position)

def occurrenceAt (c : Corpus) (length position : Nat) : Except MisplacedRun Occurrence :=
  plain (occurrenceAtM c length position)

def fragmentOfM (c : Corpus) (o : Occurrence) : m String :=
  match c.files.find? (·.inputIndex = o.file) with
  | some f => return String.ofList (← Text.lineRangeM f.source.toList o.first.line o.last.line)
  | none => return ""

def fragmentOf (c : Corpus) (o : Occurrence) : String := Id.run (fragmentOfM c o)

def ofChainM (c : Corpus) (length : Nat) (hash : UInt64) (chain : List Nat) : ExceptT MisplacedRun m Duplication := do
  let occurrences := (← chain.mapM (occurrenceAtM c length)).mergeSort fun a b => (a.compare b).isLE
  require (0 < occurrences.length) .index
  let fragment ← ExceptT.lift (occurrences.head?.elim (pure "") (fragmentOfM c))
  return {
    tokens := length
    lines := occurrences.head?.elim 0 (·.lineCount)
    hash, occurrences, fragment }

def ofChain (c : Corpus) (length : Nat) (hash : UInt64) (chain : List Nat) : Except MisplacedRun Duplication :=
  plain (ofChainM c length hash chain)

inductive Outcome
  | reported (duplications : List Duplication)
  | overlapping
  | contained
deriving DecidableEq, Repr

def hasDisjointM (length : Nat) (positions : List Nat) : m Bool := do
  return length ≤ (← minus (positions.getLast?.getD 0) (positions.head?.getD 0))

def hasDisjoint (length : Nat) (positions : List Nat) : Bool := Id.run (hasDisjointM length positions)

theorem hasDisjoint_def (length : Nat) (positions : List Nat) : hasDisjoint length positions =
    decide (length ≤ positions.getLast?.getD 0 - positions.head?.getD 0) :=
  rfl

/-- What becomes of a repeat, given a way to put positions with the same element before them together. -/
def outcomeOfM (grouping : Array Nat → Repeat → m (List (List Nat))) (c : Corpus) (r : Repeat) :
    ExceptT MisplacedRun m Outcome := do
  r.positions.forM fun p => discard (fileOfRun c r.length p)
  match maximalPairsIn c.keys r.length (← ExceptT.lift (grouping c.keys r)) with
  | [] =>
      let apart ← ExceptT.lift (hasDisjointM r.length r.positions)
      return if apart then .contained else .overlapping
  | first :: others =>
      let hash := Hash.ofKeys (← slice c.keys first.1 (first.1 + r.length)).toList
      let chains := coverPairs r.positions r.length (first :: others)
      return .reported (← chains.mapM (ofChainM c r.length hash))

def groupByBucketM (keys : Array Nat) (r : Repeat) : m (List (List Nat)) := bucketsM keys r.positions

def outcomeOf (c : Corpus) (r : Repeat) : Except MisplacedRun Outcome := plain (outcomeOfM groupByBucketM c r)

def Outcome.duplications : Outcome → List Duplication
  | reported duplications => duplications
  | _ => []

def reportM (outcomes : List Outcome) : m (List Duplication) := do
  let duplications := outcomes.flatMap (·.duplications)
  duplications.forM fun dup => require (0 < dup.occurrences.length) .index
  return duplications.mergeSort fun a b => (a.compare b).isLE

def report (outcomes : List Outcome) : List Duplication := Id.run (reportM outcomes)

theorem report_def (outcomes : List Outcome) :
    report outcomes = (outcomes.flatMap (·.duplications)).mergeSort fun a b => (a.compare b).isLE :=
  rfl

end CodeClones.Duplication
