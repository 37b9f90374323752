import CodeClones.Registry
import CodeClones.Text.Decode

/-! What a run is asked for, and when it is refused. -/

namespace CodeClones

structure Options where
  minimumTokens : Nat := 100
  language : String := "java"
  normalization : Normalization := {}
  failOnTokenizationError : Bool := false
  maxTokens : Option Nat := none
deriving DecidableEq, Repr

structure SourceFile where
  path : String
  source : String
  language : Option String := none
deriving DecidableEq, Repr

/-- Bytes that are not UTF-8 become replacement characters. -/
def SourceFile.ofBytes (path : String) (bytes : List UInt8) : SourceFile :=
  { path, source := String.ofList (Text.decode bytes) }

def SourceFile.languageOr (f : SourceFile) (language : String) : String := f.language.getD language

inductive ConfigurationError
  | zeroMinimum
  | zeroMaximum
  | unknownLanguage (language : String) (known : List String)
  | unknownFileLanguage (language path : String)
deriving DecidableEq, Repr

def ConfigurationError.message : ConfigurationError → String
  | zeroMinimum => "minimum_tokens must be >= 1"
  | zeroMaximum => "max_tokens must be >= 1"
  | unknownLanguage language known =>
      "unknown language " ++ Text.quoted language ++ " (known: " ++ ", ".intercalate known ++ ")"
  | unknownFileLanguage language path => "unknown language " ++ Text.quoted language ++ " for " ++ path

structure TokenizationError where
  path : String
  language : String
  cause : LexError
deriving DecidableEq, Repr

def TokenizationError.message (e : TokenizationError) : String :=
  "failed to tokenize " ++ e.path ++ " (" ++ e.language ++ "): " ++ e.cause.message

inductive MisplacedRun
  | pastEnd (position : Nat)
  | acrossFiles (position length : Nat) (path : String)
  | withoutToken (position : Nat)
deriving DecidableEq, Repr

def MisplacedRun.message : MisplacedRun → String
  | pastEnd position => "match position " ++ toString position ++ " lies past the corpus end"
  | acrossFiles position length path =>
      "match of " ++ toString length ++ " tokens at corpus position " ++ toString position ++
        " crosses a file boundary in " ++ path
  | withoutToken position => "no token behind corpus position " ++ toString position

inductive RunError
  | configuration (cause : ConfigurationError)
  | tokenization (cause : TokenizationError)
  | tooManyTokens (tokens limit : Nat)
  | misplaced (cause : MisplacedRun)
  | cancelled (filesDone : Nat)
deriving DecidableEq, Repr

def RunError.message : RunError → String
  | configuration cause => "invalid configuration: " ++ cause.message
  | tokenization cause => cause.message
  | tooManyTokens tokens limit =>
      "corpus too large: " ++ toString tokens ++ " tokens reached (limit " ++ toString limit ++ ")"
  | misplaced cause => "internal invariant violated: " ++ cause.message
  | cancelled filesDone => "run cancelled after " ++ toString filesDone ++ " files"

def Options.validate (o : Options) (r : Registry) : Except ConfigurationError Unit :=
  if o.minimumTokens = 0 then .error .zeroMinimum
  else if o.maxTokens = some 0 then .error .zeroMaximum
  else if r.contains o.language then .ok ()
  else .error (.unknownLanguage o.language r.languages)

theorem Options.validate_eq_ok_iff {o : Options} {r : Registry} :
    o.validate r = .ok () ↔
      0 < o.minimumTokens ∧ o.maxTokens ≠ some 0 ∧ r.contains o.language = true := by
  by_cases hm : o.minimumTokens = 0
  · simp [validate, hm]
  · by_cases ht : o.maxTokens = some 0
    · simp [validate, hm, ht]
    · have h0 : 0 < o.minimumTokens := Nat.pos_of_ne_zero hm
      by_cases hl : r.contains o.language = true <;> simp [validate, hm, ht, hl, h0]

end CodeClones
