import Mathlib.Data.List.Basic

/-! How many elements two lists share from their first on. -/

namespace CodeClones

variable {α : Type*} [DecidableEq α]

def commonBeginning : List α → List α → ℕ
  | a :: s, b :: t => if a = b then commonBeginning s t + 1 else 0
  | _, _ => 0

variable {s t : List α} {h n : ℕ}

lemma commonBeginning_comm (s t : List α) : commonBeginning s t = commonBeginning t s := by
  induction s generalizing t with
  | nil => cases t <;> rfl
  | cons a s ih =>
    cases t with
    | nil => rfl
    | cons b t => simp only [commonBeginning, ih t, eq_comm]

lemma commonBeginning_le_left (s t : List α) : commonBeginning s t ≤ s.length := by
  induction s generalizing t with
  | nil => cases t <;> exact Nat.zero_le _
  | cons a s ih =>
    cases t with
    | nil => exact Nat.zero_le _
    | cons b t =>
      rw [commonBeginning]
      split
      · exact Nat.succ_le_succ (ih t)
      · exact Nat.zero_le _

lemma commonBeginning_le_right (s t : List α) : commonBeginning s t ≤ t.length :=
  commonBeginning_comm t s ▸ commonBeginning_le_left t s

lemma getElem?_eq_of_lt_commonBeginning (hn : n < commonBeginning s t) : s[n]? = t[n]? := by
  induction s generalizing t n with
  | nil => cases t <;> exact absurd hn (Nat.not_lt_zero n)
  | cons a s ih =>
    cases t with
    | nil => exact absurd hn (Nat.not_lt_zero n)
    | cons b t =>
      rw [commonBeginning] at hn
      split at hn
      · next hab =>
        cases n with
        | zero => simp [hab]
        | succ n => simpa using ih (by omega)
      · exact absurd hn (Nat.not_lt_zero n)

lemma getElem?_commonBeginning_ne (hs : commonBeginning s t < s.length) (ht : commonBeginning s t < t.length) :
    s[commonBeginning s t]? ≠ t[commonBeginning s t]? := by
  induction s generalizing t with
  | nil => exact absurd hs (Nat.not_lt_zero _)
  | cons a s ih =>
    cases t with
    | nil => exact absurd ht (Nat.not_lt_zero _)
    | cons b t =>
      rw [commonBeginning] at hs ht ⊢
      split at hs
      · next hab =>
        rw [if_pos hab] at ht ⊢
        simpa using ih (by simpa using hs) (by simpa using ht)
      · next hab =>
        rw [if_neg hab]
        simpa using hab

lemma le_commonBeginning (hs : n ≤ s.length) (ht : n ≤ t.length) (he : ∀ i < n, s[i]? = t[i]?) :
    n ≤ commonBeginning s t := by
  by_contra hlt
  exact getElem?_commonBeginning_ne (by omega) (by omega) (he _ (by omega))

lemma commonBeginning_eq (hs : h ≤ s.length) (ht : h ≤ t.length) (he : ∀ i < h, s[i]? = t[i]?)
    (hn : s[h]? ≠ t[h]?) : commonBeginning s t = h := by
  refine Nat.le_antisymm ?_ (le_commonBeginning hs ht he)
  by_contra hlt
  exact hn (getElem?_eq_of_lt_commonBeginning (by omega))

end CodeClones
