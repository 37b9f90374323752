import CodeClones.Source.Extent

/-! Metadata of declarations. Brackets behind its name or mark belong to it; a bracket inside an ordinary
string does not count. -/

namespace CodeClones.Source

/-- Reads up to the bracket that closes the first one; `n` characters behind the head of the metadata are
read, and `depth` brackets are open. -/
def balancedLength (l : Language) (opening closing : Char) (depth n : Nat) (text : List Char) :
    Except Failure Nat :=
  match text with
  | [] => if l.strict then .error ⟨0, .openMetadata⟩ else .ok n
  | c :: rest =>
      if l.quotes.contains c then
        match Extent.literal (l.stringDelimiter c) 0 rest with
        | .closed k => balancedLength l opening closing depth (n + 1 + k) (rest.drop k)
        | .unclosed k =>
            if l.strict then .error ⟨n + 1, .openLiteral⟩
            else balancedLength l opening closing depth (n + 1 + k) (rest.drop k)
      else if c = opening then balancedLength l opening closing (depth + 1) (n + 1) rest
      else if c = closing then
        if depth ≤ 1 then .ok (n + 1)
        else balancedLength l opening closing (depth - 1) (n + 1) rest
      else balancedLength l opening closing depth (n + 1) rest
termination_by text.length
decreasing_by all_goals (simp only [List.length_cons, List.length_drop]; omega)

def metadataName? (l : Language) (rest : List Char) : Option (List Char) :=
  let name := rest.takeWhile fun c => l.continuesWord c || c = '.'
  if name.head?.any l.opensWord && name ≠ "interface".toList then some name else none

def namedLength? (l : Language) (rest : List Char) : Option (Except Failure Nat) :=
  (metadataName? l rest).map fun name =>
    let behind := rest.drop name.length
    if behind.head? = some '(' then balancedLength l '(' ')' 0 name.length behind
    else .ok name.length

def bracketedLength? (l : Language) (rest : List Char) : Option (Except Failure Nat) :=
  if ['['].isPrefixOf rest then some (balancedLength l '[' ']' 0 0 rest)
  else if ['!', '['].isPrefixOf rest then some (balancedLength l '[' ']' 0 1 (rest.drop 1))
  else none

def metadataLength? (l : Language) (lineStart : Bool) (c : Char) (rest : List Char) :
    Option (Except Failure Nat) :=
  match l.metadata with
  | .absent => none
  | .anywhere => if c = '@' then namedLength? l rest else none
  | .lineStart => if c = '@' && lineStart then namedLength? l rest else none
  | .bracketed => if c = '#' then bracketedLength? l rest else none

def readMetadata? (l : Language) (lineStart : Bool) (c : Char) (rest : List Char) :
    Option (Except Failure Reading) :=
  (metadataLength? l lineStart c rest).map fun length => length.map fun more =>
    let image := (c :: rest.take more).filter fun c => !Text.isBlank c
    ⟨.token .metadata image (more + 1), more⟩

end CodeClones.Source
