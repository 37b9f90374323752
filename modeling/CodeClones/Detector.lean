import CodeClones.Duplication.Resolve

/-! Detection: from source files to the duplications among them. -/

namespace CodeClones

structure DetectionStatistics where
  inputFiles : Nat := 0
  tokenizedFiles : Nat := 0
  skippedFiles : Nat := 0
  totalTokens : Nat := 0
  repeats : Nat := 0
  overlapping : Nat := 0
  contained : Nat := 0
  duplications : Nat := 0
deriving DecidableEq, Repr

structure Detection where
  duplications : List Duplication
  statistics : DetectionStatistics
  warnings : List TokenizationError
deriving DecidableEq, Repr

structure Detector where
  registry : Registry := .builtin
  /-- Whether runs are to end before their first file is tokenized. -/
  cancelled : Bool := false

namespace Detector

variable {m : Type → Type} [Monad m] [Access m]

def outcomesM (grouping : Array Nat → Repeat → m (List (List Nat))) (c : Corpus) (minimum : Nat) :
    ExceptT MisplacedRun m (List Duplication.Outcome) := do
  let index ← ExceptT.lift (SuffixIndex.buildM c.keys)
  let repeats ← ExceptT.lift (Repeat.allM c.keys index minimum)
  repeats.mapM (Duplication.outcomeOfM grouping c)

def outcomes (c : Corpus) (minimum : Nat) : Except MisplacedRun (List Duplication.Outcome) :=
  plain (outcomesM Duplication.groupByBucketM c minimum)

def resultOf (files : List SourceFile) (corpus : Corpus) (warnings : List TokenizationError)
    (outcomes : List Duplication.Outcome) (duplications : List Duplication) : Detection where
  duplications
  warnings
  statistics := {
    inputFiles := files.length
    tokenizedFiles := corpus.files.size
    skippedFiles := warnings.length
    totalTokens := corpus.tokens.size
    repeats := outcomes.length
    overlapping := outcomes.count .overlapping
    contained := outcomes.count .contained
    duplications := duplications.length }

def detectM (grouping : Array Nat → Repeat → m (List (List Nat))) (d : Detector) (files : List SourceFile)
    (o : Options) : ExceptT RunError m Detection := do
  let () ← (o.validate d.registry).mapError RunError.configuration
  let (corpus, warnings) ← Corpus.buildM d.registry o d.cancelled files
  let outcomes ← (outcomesM grouping corpus o.minimumTokens).adapt .misplaced
  let duplications ← ExceptT.lift (Duplication.reportM outcomes)
  return resultOf files corpus warnings outcomes duplications

def detect (d : Detector) (files : List SourceFile) (o : Options) : Except RunError Detection :=
  plain (detectM Duplication.groupByBucketM d files o)

end Detector

end CodeClones
