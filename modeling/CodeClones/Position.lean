/-! Places in a text: lines counted by line feeds and columns by characters, both from 1. -/

namespace CodeClones

/-- The largest line or column number; both stay there once they reach it. -/
def maxCoordinate : Nat := 4294967295

structure Position where
  line : Nat
  column : Nat
deriving DecidableEq, Repr

namespace Position

def start : Position := ⟨1, 1⟩

def bump (n : Nat) : Nat := min (n + 1) maxCoordinate

def after (p : Position) (c : Char) : Position :=
  if c = '\n' then ⟨bump p.line, 1⟩ else ⟨p.line, bump p.column⟩

def afterText (p : Position) (text : List Char) : Position := text.foldl after p

def Before (p q : Position) : Prop := p.line < q.line ∨ p.line = q.line ∧ p.column < q.column

instance (p q : Position) : Decidable (p.Before q) := inferInstanceAs (Decidable (_ ∨ _))

@[simp] theorem afterText_nil (p : Position) : p.afterText [] = p := rfl

@[simp] theorem afterText_cons (p : Position) (c : Char) (text : List Char) :
    p.afterText (c :: text) = (p.after c).afterText text := rfl

theorem afterText_append (p : Position) (s t : List Char) :
    p.afterText (s ++ t) = (p.afterText s).afterText t := by
  simp [afterText]

end Position

end CodeClones
