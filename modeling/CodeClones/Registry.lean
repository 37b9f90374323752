import CodeClones.Text.Quoted
import CodeClones.Tokenizer

/-! A registry of tokenizers. Each is known under its language's name and further names, and a name stands
for the tokenizer that took it last. Capitals of ASCII make no difference in names. -/

namespace CodeClones

structure Registry where
  tokenizers : List Tokenizer
  /-- Which tokenizer, by its place in the list, a name stands for. -/
  names : List (String × Nat)

namespace Registry

def empty : Registry := ⟨[], []⟩

def assign (names : List (String × Nat)) (name : String) (place : Nat) : List (String × Nat) :=
  (name, place) :: names.filter (·.1 ≠ name)

def namesOf (t : Tokenizer) (aliases : List String) : List String :=
  (t.language :: aliases).map String.toLower

def register (r : Registry) (t : Tokenizer) (aliases : List String) : Registry where
  tokenizers := r.tokenizers ++ [t]
  names := (namesOf t aliases).foldl (fun names name => assign names name r.tokenizers.length) r.names

def builtin : Registry :=
  Language.builtin.foldl (fun r l => r.register (.ofLanguage l) l.aliases) empty

/-- The form in which names are compared: no blanks around it and no capitals. -/
def normalName (name : String) : String := (String.ofList (Text.trimBlank name.toList)).toLower

def get? (r : Registry) (name : String) : Option Tokenizer :=
  (r.names.lookup (normalName name)).bind (r.tokenizers[·]?)

def contains (r : Registry) (name : String) : Bool := (r.get? name).isSome

def isKnown (r : Registry) (place : Nat) : Bool := r.names.any (·.2 = place)

def languages (r : Registry) : List String :=
  ((r.tokenizers.zipIdx.filter fun (_, place) => r.isKnown place).map (·.1.language)).eraseDups

/-- The language of the last tokenizer registered for files with the given ending. -/
def languageFor? (r : Registry) (extension : String) : Option String :=
  (r.tokenizers.reverse.find? (·.claims extension)).map (·.language)

def describe (r : Registry) : String :=
  "LanguageRegistry \x7b languages: [" ++ ", ".intercalate (r.languages.map Text.quoted) ++ "] \x7d"

@[simp] theorem lookup_assign_self (names : List (String × Nat)) (name : String) (place : Nat) :
    (assign names name place).lookup name = some place := by
  simp [assign]

end Registry

end CodeClones
