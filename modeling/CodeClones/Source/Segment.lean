import CodeClones.Text.Quoted
import CodeClones.Token

/-! The segments that a source text is cut into. Every character of the text belongs to one segment, up to
the place where reading fails. -/

namespace CodeClones.Source

inductive Role
  | blank
  | comment
  /-- A token with its image. The token counts as ending at its character number `reach`. -/
  | token (kind : Kind) (image : List Char) (reach : Nat)
deriving DecidableEq, Repr

structure Segment where
  role : Role
  text : List Char
deriving DecidableEq, Repr

inductive Fault
  | openComment
  | openLiteral
  | openRawString
  | openVerbatimString
  | openMetadata
  | unexpected (c : Char)
deriving DecidableEq, Repr

def Fault.message : Fault → String
  | openComment => "unterminated block comment"
  | openLiteral => "unterminated literal"
  | openRawString => "unterminated raw string"
  | openVerbatimString => "unterminated verbatim string"
  | openMetadata => "unterminated annotation"
  | unexpected c => "unexpected character " ++ Text.quotedChar c

structure Failure where
  offset : Nat
  fault : Fault
deriving DecidableEq, Repr

/-- What stands at the head of a text: its role, and how many characters behind the first belong to it. -/
structure Reading where
  role : Role
  more : Nat
deriving DecidableEq, Repr

def Reading.plain (kind : Kind) (c : Char) (rest : List Char) (more : Nat) : Reading :=
  ⟨.token kind (c :: rest.take more) (more + 1), more⟩

def Segment.isToken (s : Segment) : Bool :=
  match s.role with
  | .token .. => true
  | _ => false

def Segment.lineStartAfter (s : Segment) (lineStart : Bool) : Bool :=
  !s.isToken && (lineStart || s.text.contains '\n')

def Segment.token? (s : Segment) (file : Nat) (p : Position) : Option Token :=
  match s.role with
  | .token kind image reach => some {
      kind, file
      image := some (String.ofList image)
      first := p
      last := p.afterText (s.text.take (reach - 1)) }
  | _ => none

end CodeClones.Source
