/-! Operations that are meant for some of their arguments only. What becomes of a computation that uses one for
others is left to the monad it runs in. -/

namespace CodeClones

inductive Fault
  | index
  | difference
  /-- What is left of a limit is to be told, and more than that is taken. -/
  | limit
deriving DecidableEq, Repr

class Access (m : Type → Type) where
  fault : Fault → m Unit

instance : Access Id where
  fault _ := ()

instance : Access (Except Fault) where
  fault := .error

instance : Access Option where
  fault _ := none

variable {m : Type → Type} [Monad m] [Access m]

instance {ε : Type} : Access (ExceptT ε m) where
  fault f := ExceptT.lift (Access.fault f)

def plain {ε α : Type} (x : ExceptT ε Id α) : Except ε α := Id.run x.run

@[inline]
def require (p : Prop) [Decidable p] (f : Fault) : m Unit := if p then pure () else Access.fault f

@[inline]
def read {α : Type} [Inhabited α] (xs : Array α) (i : Nat) : m α := do
  require (i < xs.size) .index
  return xs.getD i default

@[inline]
def write (xs : Array Nat) (i a : Nat) : m (Array Nat) := do
  require (i < xs.size) .index
  return xs.setIfInBounds i a

@[inline]
def slice (xs : Array Nat) (first stop : Nat) : m (Array Nat) := do
  require (first ≤ stop ∧ stop ≤ xs.size) .index
  return xs.extract first stop

@[inline]
def minus (a b : Nat) : m Nat := do
  require (b ≤ a) .difference
  return a - b

@[inline]
def remaining (limit taken : Nat) : m Nat := do
  require (taken ≤ limit) .limit
  return limit - taken

end CodeClones
