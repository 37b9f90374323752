import CodeClones.Language
import CodeClones.Source.Segment

/-! Directives: preprocessor lines, and statements that import something or name a package. The image of a
directive is its text with each run of blanks and line continuations as a single space. -/

namespace CodeClones.Source

structure Draft where
  more : Nat
  reversed : List Char
  /-- How many characters reach up to the end of the image. -/
  reach : Nat
deriving DecidableEq, Repr

namespace Draft

def ofText (c : Char) (rest : List Char) : Draft :=
  ⟨rest.length, (c :: rest).reverse, rest.length + 1⟩

def skip (d : Draft) (n : Nat) : Draft := { d with more := d.more + n }

def keep (d : Draft) (spaced : Bool) (c : Char) : Draft :=
  ⟨d.more + 1, c :: (if spaced then ' ' :: d.reversed else d.reversed), d.more + 2⟩

def keepText (d : Draft) (text : List Char) (reach : Nat) : Draft :=
  ⟨d.more + text.length, text.reverse ++ d.reversed, d.more + 1 + reach⟩

def reading (d : Draft) : Reading := ⟨.token .directive d.reversed.reverse d.reach, d.more⟩

end Draft

/-- How many characters behind a line continuation's backslash belong to it, in a preprocessor line: the
line feed, or a carriage return and the character behind it. -/
def continuationLength (rest : List Char) : Nat :=
  match rest with
  | '\n' :: _ => 1
  | '\r' :: following => 1 + (following.take 1).length
  | _ => 0

def preprocessorLine (spaced : Bool) (d : Draft) (text : List Char) : Draft :=
  match text with
  | [] => d
  | c :: rest =>
      if c = '\n' ∨ ['/', '/'].isPrefixOf (c :: rest) then d
      else if c = '\\' ∧ 0 < continuationLength rest then
        preprocessorLine true (d.skip (1 + continuationLength rest)) (rest.drop (continuationLength rest))
      else if Text.isBlank c then preprocessorLine true (d.skip 1) rest
      else preprocessorLine false (d.keep spaced c) rest
termination_by text.length
decreasing_by all_goals (simp only [List.length_cons, List.length_drop]; omega)

/-- How far the text behind a quote belongs to it, in a directive: up to an equal quote that has no
backslash before it, or the end of the line. The second number is the place of the last character that
counts, which is never one behind a backslash. -/
def quotedLength (quote : Char) (n reach : Nat) : List Char → Nat × Nat
  | [] => (n, reach)
  | c :: rest =>
      if c = '\n' then (n, reach)
      else if c = '\\' then
        match rest with
        | [] => (n + 1, n + 1)
        | escaped :: rest =>
            if escaped = '\n' then (n + 1, n + 1) else quotedLength quote (n + 2) (n + 1) rest
      else if c = quote then (n + 1, n + 1)
      else quotedLength quote (n + 1) (n + 1) rest

def depthAfter (depth : Nat) (c : Char) : Nat :=
  if c = '(' ∨ c = '[' ∨ c = '\x7b' then depth + 1
  else if c = ')' ∨ c = ']' ∨ c = '\x7d' then depth - 1
  else depth

def isDirectiveQuote (c : Char) : Bool := c = '"' || c = '\'' || c = '\x60'

/-- Goes on reading a statement. Outside brackets it ends with a semicolon, or before a line feed or a line
comment. -/
def statement (l : Language) (depth : Nat) (spaced : Bool) (d : Draft) (text : List Char) : Draft :=
  match text with
  | [] => d
  | c :: rest =>
      if depth = 0 ∧ (c = '\n' ∨ l.opensLineComment (c :: rest)) then d
      else if c = '\\' ∧ rest.head? = some '\n' then statement l depth true (d.skip 2) rest.tail
      else if Text.isBlank c then statement l depth true (d.skip 1) rest
      else if c = ';' ∧ depth = 0 then d.keep spaced c
      else if isDirectiveQuote c then
        let (n, reach) := quotedLength c 0 0 rest
        statement l depth false ((d.keep spaced c).keepText (rest.take n) reach) (rest.drop n)
      else statement l (depthAfter depth c) false (d.keep spaced c) rest
termination_by text.length
decreasing_by all_goals (simp only [List.length_cons, List.length_drop, List.length_tail]; omega)

/-- A directive word with one of these characters behind it is part of an expression. -/
def expressionMarks : List Char := ['.', '=', ':', ',', ')', ';']

def opensDirective (l : Language) (behind : List Char) : Bool :=
  match (behind.dropWhile fun c => c = ' ' || c = '\t').head? with
  | none => true
  | some c => if c = '(' then l.directiveLists else !expressionMarks.contains c

end CodeClones.Source
