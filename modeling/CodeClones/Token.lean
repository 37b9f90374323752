import CodeClones.Position

/-! Tokens: the units in which programs are compared. Two tokens are equal for the comparison when they
agree in kind and image; normalization decides which images count. -/

namespace CodeClones

inductive Kind
  | identifier
  | keyword
  | number
  | string
  | char
  | operator
  /-- Metadata attached to a declaration, such as `@Name(...)` or `#[...]`. -/
  | metadata
  /-- Preprocessor lines and statements that import or name a package. -/
  | directive
deriving DecidableEq, Repr

namespace Kind

def name : Kind → String
  | identifier => "identifier"
  | keyword => "keyword"
  | number => "number"
  | string => "string"
  | char => "char"
  | operator => "operator"
  | metadata => "annotation"
  | directive => "directive"

def all : List Kind := [identifier, keyword, number, string, char, operator, metadata, directive]

def ofName? (name : String) : Option Kind := all.find? (·.name = name)

def isLiteral : Kind → Bool
  | number | string | char => true
  | _ => false

def rank : Kind → Nat
  | identifier => 0
  | keyword => 1
  | number => 2
  | string => 3
  | char => 4
  | operator => 5
  | metadata => 6
  | directive => 7

theorem ofName?_name (k : Kind) : ofName? k.name = some k := by
  cases k <;> decide

theorem rank_inj {k l : Kind} : k.rank = l.rank ↔ k = l := by
  cases k <;> cases l <;> decide

end Kind

structure Key where
  kind : Kind
  image : Option String
deriving DecidableEq, Repr

structure Token where
  kind : Kind
  /-- Missing once normalization has reduced the token to its kind. -/
  image : Option String
  file : Nat
  first : Position
  last : Position
deriving DecidableEq, Repr

namespace Token

def key (t : Token) : Key := ⟨t.kind, t.image⟩

def display (t : Token) : String :=
  let place := "@" ++ toString t.first.line ++ ":" ++ toString t.first.column
  match t.image with
  | some image => t.kind.name ++ "(" ++ image ++ ")" ++ place
  | none => t.kind.name ++ place

end Token

structure Normalization where
  ignoreIdentifiers : Bool := false
  ignoreLiterals : Bool := false
  ignoreMetadata : Bool := false
  ignoreDirectives : Bool := false
deriving DecidableEq, Repr

namespace Normalization

def drops (n : Normalization) (k : Kind) : Bool :=
  k = .metadata && n.ignoreMetadata || k = .directive && n.ignoreDirectives

def collapses (n : Normalization) (k : Kind) : Bool :=
  k = .identifier && n.ignoreIdentifiers || k.isLiteral && n.ignoreLiterals

def apply (n : Normalization) (t : Token) : Option Token :=
  if n.drops t.kind then none
  else if n.collapses t.kind then some { t with image := none }
  else some t

theorem apply_eq_none_iff {n : Normalization} {t : Token} : n.apply t = none ↔ n.drops t.kind = true := by
  by_cases hd : n.drops t.kind = true
  · simp [apply, hd]
  · by_cases hc : n.collapses t.kind = true <;> simp [apply, hd, hc]

@[simp] theorem apply_default (t : Token) : apply {} t = some t := by
  simp [apply, drops, collapses]

end Normalization

end CodeClones
