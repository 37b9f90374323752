import CodeClones.Language
import CodeClones.Source.Segment

/-! How far constructs with an end mark reach. The functions that read them are given how many characters
of the construct are read already, and count on from there. -/

namespace CodeClones.Source

inductive Extent
  | closed (length : Nat)
  | unclosed (length : Nat)
deriving DecidableEq, Repr

namespace Extent

def length : Extent → Nat
  | closed n => n
  | unclosed n => n

def settle (strict : Bool) (fault : Fault) : Extent → Except Failure Nat
  | closed n => .ok n
  | unclosed n => if strict then .error ⟨0, fault⟩ else .ok n

/-- The text behind the opening mark of a block comment inside `depth` others. -/
def blockComment (nested : Bool) (depth n : Nat) (text : List Char) : Extent :=
  match text with
  | [] => .unclosed n
  | c :: rest =>
      if c = '*' ∧ rest.head? = some '/' then
        if depth = 0 then .closed (n + 2)
        else blockComment nested (depth - 1) (n + 2) rest.tail
      else if nested ∧ c = '/' ∧ rest.head? = some '*' then
        blockComment nested (depth + 1) (n + 2) rest.tail
      else blockComment nested depth (n + 1) rest
termination_by text.length
decreasing_by all_goals (simp only [List.length_cons, List.length_tail]; omega)

def literal (d : Delimiter) (n : Nat) : List Char → Extent
  | [] => .unclosed n
  | c :: rest =>
      if c = '\n' ∧ ¬ d.multiline then .unclosed n
      else if c = '\\' ∧ d.escapes then
        match rest with
        | [] => .unclosed (n + 1)
        | _ :: rest => literal d (n + 2) rest
      else if c = d.quote then .closed (n + 1)
      else literal d (n + 1) rest

def tripleQuoted (quote : Char) (n : Nat) : List Char → Extent
  | [] => .unclosed n
  | c :: rest =>
      if c = quote ∧ [quote, quote].isPrefixOf rest then .closed (n + 3)
      else if c = '\\' then
        match rest with
        | [] => .unclosed (n + 1)
        | _ :: rest => tripleQuoted quote (n + 2) rest
      else tripleQuoted quote (n + 1) rest

def rawString (marks n : Nat) : List Char → Extent
  | [] => .unclosed n
  | c :: rest =>
      if c = '"' ∧ (List.replicate marks '#').isPrefixOf rest then .closed (n + 1 + marks)
      else rawString marks (n + 1) rest

def verbatimString (n : Nat) : List Char → Extent
  | [] => .unclosed n
  | c :: rest =>
      if c = '"' then
        match rest with
        | '"' :: rest => verbatimString (n + 2) rest
        | _ => .closed (n + 1)
      else verbatimString (n + 1) rest

def string (l : Language) (quote : Char) (n : Nat) (text : List Char) : Extent :=
  if l.tripleQuotes ∧ [quote, quote].isPrefixOf text then tripleQuoted quote (n + 2) (text.drop 2)
  else literal (l.stringDelimiter quote) n text

end Extent

end CodeClones.Source
