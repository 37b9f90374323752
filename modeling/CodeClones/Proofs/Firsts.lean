import Mathlib.Data.List.Nodup
import Mathlib.Data.List.Induction

/-! The first elements of a list under each key. -/

namespace CodeClones

variable {α β : Type*} [DecidableEq β] {key : α → β} {s t : List α} {b : β}

def isRepeated (key : α → β) (s : List α) (entry : α × ℕ) : Bool := decide (key entry.1 ∈ (s.take entry.2).map key)

def firsts (key : α → β) (s : List α) : List α := (s.zipIdx.filter fun entry => !isRepeated key s entry).map Prod.fst

def repeats (key : α → β) (s : List α) : List α := (s.zipIdx.filter (isRepeated key s)).map Prod.fst

lemma isRepeated_append {entry : α × ℕ} (h : entry ∈ s.zipIdx) :
    isRepeated key (s ++ t) entry = isRepeated key s entry := by
  have hlt : entry.2 < s.length := (List.getElem?_eq_some_iff.mp (List.mem_zipIdx_iff_getElem?.mp h)).1
  rw [isRepeated, List.take_append_of_le_length (Nat.le_of_lt hlt), isRepeated]

lemma firsts_concat (key : α → β) (s : List α) (a : α) :
    firsts key (s ++ [a]) = if key a ∈ s.map key then firsts key s else firsts key s ++ [a] := by
  have hs : (s.zipIdx.filter fun entry => !isRepeated key (s ++ [a]) entry).map Prod.fst = firsts key s := by
    rw [firsts, List.filter_congr fun entry h => by rw [isRepeated_append h]]
  rw [firsts, List.zipIdx_append, List.filter_append, List.map_append, hs, Nat.zero_add, List.zipIdx_singleton]
  by_cases h : key a ∈ s.map key <;> simp [isRepeated, h]

end CodeClones
