import CodeClones.Access

/-! The lines of a text. A line ends at a line feed; a carriage return right before it belongs to the
line end, and a text that ends with a line feed has no empty last line. -/

namespace CodeClones.Text

def dropReturn (line : List Char) : List Char :=
  if line.getLast? = some '\r' then line.dropLast else line

/-- The pieces between line feeds, the last one as it is and left out when empty. -/
def linesOf : List (List Char) → List (List Char)
  | [] => []
  | [last] => if last = [] then [] else [last]
  | line :: following => dropReturn line :: linesOf following

def lines (text : List Char) : List (List Char) := linesOf (text.splitOn '\n')

/-- The lines from the `first` to the `last`, counted from 1, joined by line feeds. Lines that do not
exist are left out. -/
def lineRangeM {m : Type → Type} [Monad m] [Access m] (text : List Char) (first last : Nat) : m (List Char) := do
  if first = 0 ∨ last < first then return []
  else
    let skipped ← minus first 1
    let further ← minus last first
    return ['\n'].intercalate (((lines text).drop skipped).take (further + 1))

def lineRange (text : List Char) (first last : Nat) : List Char := Id.run (lineRangeM text first last)

end CodeClones.Text
