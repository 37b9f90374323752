import Mathlib.Data.List.Infix
import CodeClones.Report

/-! Readers of texts. A reader takes something from the front of a text and leaves the rest; what was written for a
value is read again whatever stands behind it. -/

namespace CodeClones.Report

lemma ofList_digits (n : ℕ) : String.ofList (digits n) = n.repr := Nat.repr_eq_ofList_toDigits.symm

abbrev Reader := StateT (List Char) Option

namespace Reader

variable {α β : Type} {p : Reader α} {q : α → Reader β} {a : α} {s text rest mark : List Char}

def exactly (s : List Char) : Reader Unit := fun text =>
  if s.isPrefixOf text then some ((), text.drop s.length) else none

def upTo (mark : List Char) : Reader (List Char)
  | [] => none
  | c :: text =>
      if mark.isPrefixOf (c :: text) then some ([], (c :: text).drop mark.length)
      else (upTo mark text).map fun (front, rest) => (c :: front, rest)

def repeatedly (p : Reader α) (text : List Char) : List α × List Char :=
  match p text with
  | none => ([], text)
  | some (a, rest) =>
      if rest.length < text.length then (a :: (repeatedly p rest).1, (repeatedly p rest).2) else ([], text)
termination_by text.length

def many (p : Reader α) : Reader (List α) := fun text => some (repeatedly p text)

lemma bind_eq (h : p text = some (a, rest)) : (p >>= q) text = q a rest := by
  simp only [bind, StateT.bind, h, Option.bind_some]

lemma lift_bind_eq {x : Option α} (h : x = some a) : ((liftM x : Reader α) >>= q) text = q a text := by
  subst h
  rfl

lemma exactly_append (s rest : List Char) : exactly s (s ++ rest) = some ((), rest) := by
  rw [exactly, if_pos (List.isPrefixOf_iff_prefix.mpr (List.prefix_append s rest)), List.drop_left]

lemma upTo_append (h : ¬ mark <:+: s ++ mark.dropLast) (rest : List Char) :
    upTo mark (s ++ (mark ++ rest)) = some (s, rest) := by
  induction s with
  | nil =>
    cases mark with
    | nil => exact absurd List.nil_infix h
    | cons c mark =>
      have hp : (c :: mark).isPrefixOf (c :: (mark ++ rest)) = true :=
        List.isPrefixOf_iff_prefix.mpr (List.prefix_append (c :: mark) rest)
      rw [List.nil_append, List.cons_append, upTo, if_pos hp]
      simp
  | cons c s ih =>
    rw [List.cons_append, List.infix_cons_iff, not_or] at h
    have hlonger : c :: (s ++ mark.dropLast) <+: c :: (s ++ (mark ++ rest)) := by
      rw [List.cons_prefix_cons, List.prefix_append_right_inj]
      exact ⟨rfl, (List.dropLast_prefix mark).trans (List.prefix_append mark rest)⟩
    have hp : ¬ mark.isPrefixOf (c :: (s ++ (mark ++ rest))) = true := by
      intro hp
      apply h.1
      apply List.prefix_of_prefix_length_le (List.isPrefixOf_iff_prefix.mp hp) hlonger
      rw [List.length_cons, List.length_append, List.length_dropLast]
      omega
    rw [List.cons_append, upTo, if_neg hp, ih h.2]
    rfl

lemma many_of_eq_none (h : p text = none) : many p text = some ([], text) := by
  rw [many, repeatedly, h]

lemma many_nil (p : Reader α) : many p [] = some ([], []) := by
  rw [many, repeatedly]
  cases p [] <;> rfl

lemma repeatedly_append (h : p (s ++ rest) = some (a, rest)) (hs : s ≠ []) :
    repeatedly p (s ++ rest) = (a :: (repeatedly p rest).1, (repeatedly p rest).2) := by
  have hlt : rest.length < (s ++ rest).length := by
    have := List.length_pos_iff.mpr hs
    simp
    omega
  rw [repeatedly, h]
  simp only [if_pos hlt]

lemma many_flatMap {write : α → List Char} (Follows : List Char → Prop) {items : List α}
    (hread : ∀ a ∈ items, ∀ rest, Follows rest → p (write a ++ rest) = some (a, rest))
    (hwrite : ∀ a ∈ items, write a ≠ []) (hfollows : ∀ a ∈ items, ∀ rest, Follows (write a ++ rest))
    (hrest : Follows rest) (hstop : many p rest = some ([], rest)) :
    many p (items.flatMap write ++ rest) = some (items, rest) := by
  apply congrArg some
  -- What stands behind an item is the next item, or what stands behind them all.
  induction items with
  | nil => exact Option.some.inj hstop
  | cons a items ih =>
    simp only [List.forall_mem_cons] at hread hwrite hfollows
    have hbehind : Follows (items.flatMap write ++ rest) := by
      cases items with
      | nil => exact hrest
      | cons b items =>
        rw [List.flatMap_cons, List.append_assoc]
        exact hfollows.2 b List.mem_cons_self _
    rw [List.flatMap_cons, List.append_assoc, repeatedly_append (hread.1 _ hbehind) hwrite.1,
      ih hread.2 hwrite.2 hfollows.2]

end Reader

end CodeClones.Report
