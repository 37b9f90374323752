import CodeClones.Text.Visible

/-! Quoted text for messages: a text or a character between delimiters, with its delimiter, the
backslash and everything that does not show by itself escaped. -/

namespace CodeClones.Text

def hexDigits (n : Nat) : List Char := Nat.toDigits 16 n

def escape (delimiter c : Char) : List Char :=
  if c = delimiter ∨ c = '\\' then ['\\', c]
  else if c = '\n' then ['\\', 'n']
  else if c = '\r' then ['\\', 'r']
  else if c = '\t' then ['\\', 't']
  else if c = '\x00' then ['\\', '0']
  else if isVisible c then [c]
  else ['\\', 'u', '{'] ++ hexDigits c.toNat ++ ['}']

def quoteWith (delimiter : Char) (text : List Char) : String :=
  String.ofList (delimiter :: text.flatMap (escape delimiter) ++ [delimiter])

def quoted (text : String) : String := quoteWith '"' text.toList

def quotedChar (c : Char) : String := quoteWith '\'' [c]

end CodeClones.Text
