import CodeClones.Text.Blank
import CodeClones.Text.Letter
import CodeClones.Token

/-! Lexical rules. A language is described by the words, marks and delimiters it gives a meaning to. -/

namespace CodeClones

inductive BlockComments
  | absent
  | flat
  | nested
deriving DecidableEq, Repr

inductive MetadataForm
  | absent
  | anywhere
  /-- A name behind an at sign that comes first on its line. -/
  | lineStart
  /-- A number sign and, with or without an exclamation mark, brackets. -/
  | bracketed
deriving DecidableEq, Repr

structure Delimiter where
  quote : Char
  kind : Kind := .string
  escapes : Bool := true
  multiline : Bool := false
deriving DecidableEq, Repr

def Delimiter.char : Delimiter := { quote := '\'', kind := .char }

structure Language where
  name : String
  aliases : List String := []
  extensions : List String
  keywords : List String := []
  /-- The operators of more than one character; every other operator is a single one. -/
  operators : List String := []
  lineComment : Option (List Char) := some ['/', '/']
  blockComments : BlockComments := .flat
  quotes : List Char := ['"']
  multilineStrings : Bool := false
  tripleQuotes : Bool := false
  /-- The words that an ordinary string right behind them takes in. -/
  stringMarks : List String := []
  otherLiterals : List Delimiter := []
  /-- The words that open a raw string, which number signs and quotes enclose. -/
  rawStringMarks : List String := []
  charMarks : List String := []
  /-- Whether an apostrophe may open a name. -/
  lifetimes : Bool := false
  /-- Whether an at sign, a dollar sign or both may stand before a string, and a string behind an at sign
  has doubled quotes in place of escapes. -/
  verbatimStrings : Bool := false
  dollarInWords : Bool := false
  metadata : MetadataForm := .absent
  preprocessor : Bool := false
  /-- The words that make a statement a directive when they come first on their line. -/
  directiveWords : List String := []
  directiveLists : Bool := false
  /-- Whether malformed text is refused. Otherwise it is read as far as it makes sense. -/
  strict : Bool := false
deriving DecidableEq, Repr

namespace Language

variable (l : Language)

def opensWord (c : Char) : Bool :=
  Text.isAlphabetic c || c = '_' || l.dollarInWords && c = '$'

def continuesWord (c : Char) : Bool :=
  Text.isAlphabetic c || Text.isNumeric c || c = '_' || l.dollarInWords && c = '$'

def opensLineComment (text : List Char) : Bool :=
  match l.lineComment with
  | some mark => mark.isPrefixOf text
  | none => false

def opensBlockComment (text : List Char) : Bool :=
  l.blockComments ≠ .absent && ['/', '*'].isPrefixOf text

def stringDelimiter (quote : Char) : Delimiter := { quote, multiline := l.multilineStrings }

theorem continuesWord_of_opensWord {c : Char} (h : l.opensWord c = true) : l.continuesWord c = true := by
  simp only [opensWord, continuesWord, Bool.or_eq_true] at h ⊢
  rcases h with (h | h) | h <;> simp [h]

end Language

end CodeClones
