import CodeClones.Duplication.Pairs
import CodeClones.Proofs.Corpus.Keys

/-! What stands before and behind a run. The edges of files are unlike anything else. -/

namespace CodeClones.Corpus

open Duplication

variable {files : List TokenizedFile} {f g : TokenizedFile} {k l i j q length : ℕ}

lemma before?_start_ne (hf : files[k]? = some f) (hq : q < (ofFiles files).keys.size)
    (hne : q ≠ startOf files k) :
    before? (ofFiles files).keys (startOf files k) ≠ before? (ofFiles files).keys q := by
  intro he
  cases k with
  | zero =>
    rw [startOf_zero] at he hne
    obtain ⟨n, rfl⟩ := Nat.exists_eq_succ_of_ne_zero hne
    have hn := Array.getElem?_eq_getElem (by omega : n < (ofFiles files).keys.size)
    rw [before?_zero, before?_succ, hn] at he
    exact absurd he (by simp)
  | succ k =>
    have hk := (List.getElem?_eq_some_iff.mp hf).1
    have hg := List.getElem?_eq_getElem (by omega : k < files.length)
    have hs := startOf_succ hg
    rw [hs] at he hne
    cases q with
    | zero =>
      rw [before?_succ, before?_zero, sentinel hg] at he
      exact absurd he (by simp)
    | succ q =>
      have := sentinel_unique hg (q := q) he.symm
      omega

lemma before?_ne (hf : files[k]? = some f) (hg : files[l]? = some g) (hi : i ≤ f.tokens.length)
    (hj : j ≤ g.tokens.length) (hne : startOf files k + i ≠ startOf files l + j)
    (hd : 0 < i → 0 < j → f.tokens[i - 1]?.map (·.key) ≠ g.tokens[j - 1]?.map (·.key)) :
    before? (ofFiles files).keys (startOf files k + i) ≠ before? (ofFiles files).keys (startOf files l + j) := by
  cases i with
  | zero => exact before?_start_ne hf (add_lt_size hg hj) hne.symm
  | succ i =>
    cases j with
    | zero => exact (before?_start_ne hg (add_lt_size hf hi) hne).symm
    | succ j =>
      refine fun he => hd (Nat.succ_pos i) (Nat.succ_pos j) ?_
      exact (keys_eq_iff hf hg (by omega) (by omega)).mp he

lemma key_ne (hf : files[k]? = some f) (hg : files[l]? = some g) (hi : i ≤ f.tokens.length)
    (hj : j ≤ g.tokens.length) (hne : startOf files k + i ≠ startOf files l + j)
    (hd : i < f.tokens.length → j < g.tokens.length →
      f.tokens[i]?.map (·.key) ≠ g.tokens[j]?.map (·.key)) :
    (ofFiles files).keys[startOf files k + i]? ≠ (ofFiles files).keys[startOf files l + j]? := by
  intro he
  rcases Nat.lt_or_eq_of_le hi with hi | rfl
  · rcases Nat.lt_or_eq_of_le hj with hj | rfl
    · exact hd hi hj ((keys_eq_iff hf hg hi hj).mp he)
    · exact hne (sentinel_unique hg he)
  · exact hne (sentinel_unique hf he.symm).symm

end CodeClones.Corpus
