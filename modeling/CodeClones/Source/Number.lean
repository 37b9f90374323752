/-! Numbers: digits, letters and underscores, with points in front of digits and signs behind exponents. -/

namespace CodeClones.Source

def continuesNumber (c : Char) : Bool := c.isAlphanum || c = '_'

def isExponentMark (c : Char) : Bool := c = 'e' || c = 'E'

def isSign (c : Char) : Bool := c = '+' || c = '-'

/-- How far a number reaches into the text behind its first character, `n` characters of which are read.
`exponent` tells whether a sign may follow; in base 16 no letter marks an exponent. -/
def numberLength (hex exponent : Bool) (n : Nat) : List Char → Nat
  | [] => n
  | c :: rest =>
      if exponent && isSign c then numberLength hex false (n + 1) rest
      else if continuesNumber c then numberLength hex (!hex && isExponentMark c) (n + 1) rest
      else if c = '.' && rest.head?.any Char.isDigit then numberLength hex false (n + 1) rest
      else n

def opensHex (c : Char) (rest : List Char) : Bool :=
  c = '0' && (rest.head? = some 'x' || rest.head? = some 'X')

def opensNumber (c : Char) (rest : List Char) : Bool :=
  c.isDigit || c = '.' && rest.head?.any Char.isDigit

end CodeClones.Source
