import CodeClones.Language.Builtin
import CodeClones.Source.Stream
import CodeClones.Text.Lines

/-! Tokenizers: what a run needs to know of a language. -/

namespace CodeClones

structure Tokenizer where
  language : String
  extensions : List String
  strict : Bool
  tokenize : String → Nat → Normalization → TokenStream

namespace Tokenizer

def ofLanguage (l : Language) : Tokenizer where
  language := l.name
  extensions := l.extensions
  strict := l.strict
  tokenize := l.tokenize

/-- The words of a line, each placed at the line's first character. -/
def lineWords (file line : Nat) (text : List Char) : List Token :=
  (Text.splitBlank text).map fun word =>
    ⟨.identifier, some (String.ofList word), file, ⟨line, 1⟩, ⟨line, 1⟩⟩

def words (language : String) (extensions : List String) : Tokenizer where
  language
  extensions
  strict := false
  tokenize source file n :=
    let numbered := (Text.lines source.toList).zipIdx 1
    TokenStream.normalize n ⟨numbered.flatMap fun (text, line) => lineWords file line text, none⟩

instance : Inhabited Tokenizer := ⟨words "" []⟩

/-- Whether it is for files whose names end in the given way; capitals of ASCII make no difference. -/
def claims (t : Tokenizer) (extension : String) : Bool :=
  t.extensions.any fun e => e.toLower = extension.toLower

end Tokenizer

end CodeClones
