import Std.Data.TreeMap
import CodeClones.Access
import CodeClones.Options
import CodeClones.PartitionPoint

/-! A corpus: the tokens of all files of a run in one sequence, and a sequence of numbers that are equal
exactly for equal keys. Behind the numbers of each file stands one that occurs nowhere else, a sentinel, so
that no repeated run reaches from one file into another. -/

namespace CodeClones

structure CorpusFile where
  path : String
  language : String
  inputIndex : Nat
  source : String
  start : Nat
  stop : Nat
deriving DecidableEq, Repr

def CorpusFile.tokenCount (f : CorpusFile) : Nat := f.stop - f.start

structure Corpus where
  files : Array CorpusFile
  tokens : Array Token
  keys : Array Nat
  /-- How many different keys the tokens have; every sentinel is at least as great. -/
  distinctKeys : Nat
deriving DecidableEq, Repr

namespace Corpus

def isSentinel (c : Corpus) (position : Nat) : Bool := c.keys[position]?.any (c.distinctKeys ≤ ·)

/-- The file at whose keys or sentinel a position is; the number of files if there is none. -/
def fileAt (c : Corpus) (position : Nat) : Nat :=
  partitionPoint (fun i => c.files[i]?.any (·.stop < position)) 0 c.files.size

def tokenAt? (c : Corpus) (position : Nat) : Option Token :=
  let file := c.fileAt position
  match c.files[file]? with
  | none => none
  | some f => if f.stop ≤ position then none else c.tokens[position - file]?

/-! ### Numbers for keys -/

def compareKinds : Kind → Kind → Ordering := compareOn Kind.rank

structure Numbering where
  withImage : Std.TreeMap Kind (Std.TreeMap String Nat) compareKinds := ∅
  collapsed : Std.TreeMap Kind Nat compareKinds := ∅
  next : Nat := 0

def Numbering.number (s : Numbering) (k : Key) : Nat × Numbering :=
  match k.image with
  | none =>
      match s.collapsed[k.kind]? with
      | some n => (n, s)
      | none => (s.next, { s with collapsed := s.collapsed.insert k.kind s.next, next := s.next + 1 })
  | some image =>
      let byImage := s.withImage.getD k.kind ∅
      match byImage[image]? with
      | some n => (n, s)
      | none =>
          let withImage := s.withImage.insert k.kind (byImage.insert image s.next)
          (s.next, { s with withImage, next := s.next + 1 })

/-! ### From source texts to a corpus -/

/-- The number of positions that 32 bits leave for keys and sentinels. -/
def maxPositions : Nat := 4294967294

structure Assembly where
  numbering : Numbering := {}
  files : Array CorpusFile := #[]
  tokens : Array Token := #[]
  keys : Array Nat := #[]
  warnings : Array TokenizationError := #[]

namespace Assembly

def addKey (a : Assembly) (k : Key) : Assembly :=
  let (n, numbering) := a.numbering.number k
  { a with numbering, keys := a.keys.push n }

def addFile (a : Assembly) (f : SourceFile) (language : String) (inputIndex : Nat) (tokens : List Token) : Assembly :=
  let start := a.keys.size
  let a := (tokens.map (·.key)).foldl addKey a
  let stop := a.keys.size
  { a with
    keys := a.keys.push 0
    tokens := a.tokens ++ tokens
    files := a.files.push ⟨f.path, language, inputIndex, f.source, start, stop⟩ }

end Assembly

variable {m : Type → Type} [Monad m] [Access m]

def tokenizers (r : Registry) (o : Options) (files : List SourceFile) :
    Except ConfigurationError (List Tokenizer) :=
  files.mapM fun f =>
    let language := f.languageOr o.language
    match r.get? language with
    | some t => .ok t
    | none => .error (.unknownFileLanguage language f.path)

abbrev Tokenized := SourceFile × Except TokenizationError (List Token)

def tokenizeM (tokenizers : Array Tokenizer) (o : Options) (file : SourceFile × Nat) : m Tokenized := do
  let (f, index) := file
  let t ← read tokenizers index
  return (f, (t.tokenize f.source index o.normalization).complete.mapError fun cause => ⟨f.path, t.language, cause⟩)

def Assembly.addM (tokenizers : Array Tokenizer) (o : Options) (a : Assembly) (file : Tokenized × Nat) :
    ExceptT RunError m Assembly := do
  let ((f, outcome), index) := file
  match outcome with
  | .error failure =>
      if o.failOnTokenizationError then throw (.tokenization failure)
      else return { a with warnings := a.warnings.push failure }
  | .ok tokens =>
      let total := a.tokens.size + tokens.length
      match o.maxTokens.filter (· < total) with
      | some limit => throw (.tooManyTokens total limit)
      | none =>
          if maxPositions < total + a.files.size + 1 then
            throw (.tooManyTokens total (← remaining (← remaining maxPositions a.files.size) 1))
          else do
            let t ← read tokenizers index
            return a.addFile f t.language index tokens

def writeSentinelM (distinctKeys : Nat) (keys : Array Nat) (file : CorpusFile × Nat) : m (Array Nat) :=
  let (f, i) := file
  write keys f.stop (distinctKeys + i)

/-- The corpus of the given files, and the files left out because they could not be tokenized. Unknown
languages are refused before anything else is done. -/
def buildM (r : Registry) (o : Options) (cancelled : Bool) (files : List SourceFile) :
    ExceptT RunError m (Corpus × List TokenizationError) := do
  let tokenizers : List Tokenizer ← (tokenizers r o files).mapError RunError.configuration
  if cancelled ∧ files ≠ [] then throw (.cancelled 0)
  let tokenized ← ExceptT.lift (files.zipIdx.mapM (tokenizeM tokenizers.toArray o))
  let a ← tokenized.zipIdx.foldlM (Assembly.addM tokenizers.toArray o) {}
  let distinctKeys := a.numbering.next
  let keys ← ExceptT.lift (a.files.toList.zipIdx.foldlM (writeSentinelM distinctKeys) a.keys)
  return (⟨a.files, a.tokens, keys, distinctKeys⟩, a.warnings.toList)

def build (r : Registry) (o : Options) (cancelled : Bool) (files : List SourceFile) :
    Except RunError (Corpus × List TokenizationError) :=
  plain (buildM r o cancelled files)

end Corpus

end CodeClones
