import CodeClones.Source.Directive
import CodeClones.Source.Metadata
import CodeClones.Source.Number

/-! Cutting a source text into segments. A reader looks at the head of a text and tells what stands there;
the first of the readers that recognises something decides. -/

namespace CodeClones.Source

variable (l : Language)

def readPreprocessorLine? (lineStart : Bool) (c : Char) (rest : List Char) : Option Reading :=
  if l.preprocessor && lineStart && c = '#' then
    some (preprocessorLine false (.ofText c []) rest).reading
  else none

def verbatimMark? (c : Char) (rest : List Char) : Option (Nat × Bool) :=
  if c = '$' ∧ ['@', '"'].isPrefixOf rest ∨ c = '@' ∧ ['$', '"'].isPrefixOf rest then some (1, true)
  else if c = '@' ∧ ['"'].isPrefixOf rest then some (0, true)
  else if c = '$' ∧ ['"'].isPrefixOf rest then some (0, false)
  else none

def readVerbatimString? (c : Char) (rest : List Char) : Option (Except Failure Reading) :=
  if l.verbatimStrings then
    (verbatimMark? c rest).map fun (marks, verbatim) =>
      let behind := rest.drop (marks + 1)
      let length := if verbatim
        then (Extent.verbatimString (marks + 1) behind).settle l.strict .openVerbatimString
        else (Extent.literal { quote := '"' } (marks + 1) behind).settle l.strict .openLiteral
      length.map (.plain .string c rest)
  else none

def rawStringExtent? (behind : List Char) : Option Extent :=
  let marks := (behind.takeWhile (· = '#')).length
  if (behind.drop marks).head? = some '"' then
    some (.rawString marks (marks + 1) (behind.drop (marks + 1)))
  else none

def markedLiteral? (word : String) (n : Nat) (behind : List Char) : Option (Kind × Except Failure Nat) :=
  match behind with
  | [] => none
  | quote :: rest =>
      let raw := if l.rawStringMarks.contains word then rawStringExtent? behind else none
      match raw with
      | some extent => some (.string, (extent.settle l.strict .openRawString).map (n + ·))
      | none =>
          if l.stringMarks.contains word && l.quotes.contains quote then
            some (.string, (Extent.string l quote (n + 1) rest).settle l.strict .openLiteral)
          else if l.charMarks.contains word && quote = '\'' then
            some (.char, (Extent.literal .char (n + 1) rest).settle l.strict .openLiteral)
          else none

def readWord? (lineStart : Bool) (c : Char) (rest : List Char) : Option (Except Failure Reading) :=
  if l.opensWord c then
    let tail := rest.takeWhile l.continuesWord
    let word := String.ofList (c :: tail)
    let behind := rest.drop tail.length
    some <| match markedLiteral? l word tail.length behind with
    | some (kind, length) => length.map (.plain kind c rest)
    | none =>
        if lineStart && l.directiveWords.contains word && opensDirective l behind then
          .ok (statement l 0 false (.ofText c tail) behind).reading
        else
          .ok (.plain (if l.keywords.contains word then .keyword else .identifier) c rest tail.length)
  else none

def readNumber? (c : Char) (rest : List Char) : Option Reading :=
  if opensNumber c rest then
    some (.plain .number c rest (numberLength (opensHex c rest) false 0 rest))
  else none

def readString? (c : Char) (rest : List Char) : Option (Except Failure Reading) :=
  if l.quotes.contains c then
    some (((Extent.string l c 0 rest).settle l.strict .openLiteral).map (.plain .string c rest))
  else none

/-- Whether an apostrophe opens a name: a single letter between two apostrophes is none. -/
def opensLifetime (c : Char) (rest : List Char) : Bool :=
  l.lifetimes && c = '\'' && rest.head?.any l.opensWord && rest[1]? ≠ some '\''

def readOtherLiteral? (c : Char) (rest : List Char) : Option (Except Failure Reading) :=
  (l.otherLiterals.find? (·.quote = c)).map fun d =>
    if opensLifetime l c rest then
      .ok (.plain .identifier c rest (rest.takeWhile l.continuesWord).length)
    else ((Extent.literal d 0 rest).settle l.strict .openLiteral).map (.plain d.kind c rest)

def isPunctuation (c : Char) : Bool :=
  '!' ≤ c && c ≤ '/' || ':' ≤ c && c ≤ '@' || '[' ≤ c && c ≤ '\x60' || '\x7b' ≤ c && c ≤ '~'

def operatorLength (text : List Char) : Nat :=
  ((l.operators.filter (·.toList.isPrefixOf text)).map String.length).foldl max 0

def readOperator (c : Char) (rest : List Char) : Except Failure Reading :=
  match operatorLength l (c :: rest) with
  | 0 =>
      if l.strict && !isPunctuation c then .error ⟨0, .unexpected c⟩
      else .ok (.plain .operator c rest 0)
  | n + 1 => .ok (.plain .operator c rest n)

def readToken (lineStart : Bool) (c : Char) (rest : List Char) : Except Failure Reading :=
  ((readPreprocessorLine? l lineStart c rest).map Except.ok
    <|> readMetadata? l lineStart c rest
    <|> readVerbatimString? l c rest
    <|> readWord? l lineStart c rest
    <|> (readNumber? c rest).map Except.ok
    <|> readString? l c rest
    <|> readOtherLiteral? l c rest).getD (readOperator l c rest)

def read (lineStart : Bool) (c : Char) (rest : List Char) : Except Failure Reading :=
  if Text.isBlank c then .ok ⟨.blank, 0⟩
  else if l.opensLineComment (c :: rest) then .ok ⟨.comment, (rest.takeWhile (· ≠ '\n')).length⟩
  else if l.opensBlockComment (c :: rest) then
    ((Extent.blockComment (l.blockComments = .nested) 0 1 (rest.drop 1)).settle l.strict .openComment).map
      fun more => ⟨.comment, more⟩
  else readToken l lineStart c rest

structure Cut where
  segments : List Segment
  unread : List Char
  failure : Option Failure
deriving DecidableEq, Repr

/-- Cuts a text that follows the segments `done`, which are listed from last to first. -/
def cutOnto (done : List Segment) (lineStart : Bool) (text : List Char) : Cut :=
  match text with
  | [] => ⟨done.reverse, [], none⟩
  | c :: rest =>
      match read l lineStart c rest with
      | .error failure => ⟨done.reverse, c :: rest, some failure⟩
      | .ok reading =>
          let segment : Segment := ⟨reading.role, c :: rest.take reading.more⟩
          cutOnto (segment :: done) (segment.lineStartAfter lineStart) (rest.drop reading.more)
termination_by text.length
decreasing_by all_goals (simp only [List.length_cons, List.length_drop]; omega)

def cut (text : List Char) : Cut := cutOnto l [] true text

theorem flatMap_text_cutOnto (done : List Segment) (lineStart : Bool) (text : List Char) :
    (cutOnto l done lineStart text).segments.flatMap (·.text) ++ (cutOnto l done lineStart text).unread =
      done.reverse.flatMap (·.text) ++ text := by
  fun_induction cutOnto l done lineStart text with
  | case1 done lineStart => simp
  | case2 done lineStart c rest failure h => rfl
  | case3 done lineStart c rest reading h segment ih =>
      rw [ih]
      simp [segment, List.append_assoc]

theorem flatMap_text_cut (text : List Char) :
    (cut l text).segments.flatMap (·.text) ++ (cut l text).unread = text :=
  flatMap_text_cutOnto l [] true text

theorem segments_cutOnto (done : List Segment) (lineStart : Bool) (text : List Char) :
    (cutOnto l done lineStart text).segments = done.reverse ++ (cutOnto l [] lineStart text).segments := by
  induction h : text.length using Nat.strongRecOn generalizing done lineStart text with
  | ind n ih =>
      match text with
      | [] => simp [cutOnto]
      | c :: rest =>
          rw [cutOnto, cutOnto]
          cases read l lineStart c rest with
          | error failure => simp
          | ok reading =>
              have hlt : (rest.drop reading.more).length < n := by
                rw [← h, List.length_drop, List.length_cons]
                omega
              simp only
              rw [ih _ hlt _ _ _ rfl]
              conv => rhs; rw [ih _ hlt _ _ _ rfl]
              simp

end CodeClones.Source
