import Mathlib.Data.List.Chain
import Mathlib.Data.List.Induction
import CodeClones.Duplication.Chain
import CodeClones.Proofs.Duplication.Pairs

/-! A chain through a pair holds both of its positions, and its positions are far enough apart. -/

namespace CodeClones.Duplication

variable {length p q : ℕ} {kept forced positions chain : List ℕ} {pair : ℕ × ℕ} {pairs : List (ℕ × ℕ)}

def Apart (length p q : ℕ) : Prop := p + length ≤ q

instance : Trans (Apart length) (Apart length) (Apart length) where
  trans h h' := by
    unfold Apart at h h' ⊢
    omega

lemma holds_iff : holds chain pair = true ↔ pair.1 ∈ chain ∧ pair.2 ∈ chain := by
  rw [holds, Bool.and_eq_true, List.contains_iff_mem, List.contains_iff_mem]

lemma isChain_insert (h : (kept.reverse ++ forced).IsChain (Apart length))
    (hk : kept.head?.all (· + length ≤ p) = true) (hf : forced.head?.all (p + length ≤ ·) = true) :
    ((p :: kept).reverse ++ forced).IsChain (Apart length) := by
  obtain ⟨hkept, hforced, -⟩ := List.isChain_append.mp h
  rw [List.reverse_cons, List.append_assoc, List.singleton_append]
  refine List.isChain_append.mpr ⟨hkept, List.isChain_cons.mpr ⟨fun q hq => ?_, hforced⟩, fun q hq r hr => ?_⟩
  · rw [Option.mem_def.mp hq] at hf
    simpa [Apart] using hf
  · rw [List.getLast?_reverse] at hq
    rw [Option.mem_def.mp hq] at hk
    rw [List.head?_cons, Option.mem_some_iff] at hr
    subst hr
    simpa [Apart] using hk

/-- What is kept and what must be kept stays apart, since a forced position only changes sides. -/
lemma isChain_chainOnto (h : (kept.reverse ++ forced).IsChain (Apart length)) (positions : List ℕ) :
    (chainOnto length kept forced positions).IsChain (Apart length) := by
  induction positions generalizing kept forced with
  | nil => exact (List.isChain_append.mp h).1
  | cons p following ih =>
    rw [chainOnto]
    split
    · next hp =>
      obtain ⟨rest, rfl⟩ := List.head?_eq_some_iff.mp hp
      exact ih (by simpa using h)
    · split
      · next hr =>
        rw [Bool.and_eq_true] at hr
        exact ih (isChain_insert h hr.1 hr.2)
      · exact ih h

lemma mem_of_mem_chainOnto (h : p ∈ chainOnto length kept forced positions) :
    p ∈ kept ∨ p ∈ positions := by
  induction positions generalizing kept forced with
  | nil => exact Or.inl (List.mem_reverse.mp h)
  | cons q following ih =>
    rw [chainOnto] at h
    have hcases : p ∈ q :: kept ∨ p ∈ kept ∨ p ∈ following := by
      split at h
      · rcases ih h with hk | hk
        · exact Or.inl hk
        · exact Or.inr (Or.inr hk)
      · split at h
        · rcases ih h with hk | hk
          · exact Or.inl hk
          · exact Or.inr (Or.inr hk)
        · exact Or.inr (ih h)
    rcases hcases with hk | hk | hk
    · rcases List.mem_cons.mp hk with rfl | hk
      · exact Or.inr List.mem_cons_self
      · exact Or.inl hk
    · exact Or.inl hk
    · exact Or.inr (List.mem_cons_of_mem _ hk)

lemma mem_chainOnto (hs : forced.Sublist positions) (h : p ∈ kept ∨ p ∈ forced) :
    p ∈ chainOnto length kept forced positions := by
  induction positions generalizing kept forced with
  | nil =>
    rcases h with hk | hf
    · exact List.mem_reverse.mpr hk
    · exact absurd (hs.subset hf) List.not_mem_nil
  | cons q following ih =>
    rw [chainOnto]
    split
    · next hp =>
      obtain ⟨rest, rfl⟩ := List.head?_eq_some_iff.mp hp
      refine ih (List.cons_sublist_cons.mp hs) ?_
      rcases h with hk | hf
      · exact Or.inl (List.mem_cons_of_mem _ hk)
      · rcases List.mem_cons.mp hf with rfl | hf
        · exact Or.inl List.mem_cons_self
        · exact Or.inr hf
    · next hp =>
      have hs' : forced.Sublist following := by
        rcases List.sublist_cons_iff.mp hs with hs | ⟨rest, rfl, -⟩
        · exact hs
        · exact absurd rfl hp
      split
      · exact ih hs' (h.imp_left (List.mem_cons_of_mem _))
      · exact ih hs' h

lemma chainThrough_pairwise (positions : List ℕ) (h : pair.1 + length ≤ pair.2) :
    (chainThrough positions length pair).Pairwise (Apart length) := by
  refine (isChain_chainOnto ?_ positions).pairwise
  exact List.isChain_cons_cons.mpr ⟨h, List.isChain_singleton _⟩

lemma mem_of_mem_chainThrough (h : p ∈ chainThrough positions length pair) : p ∈ positions := by
  rcases mem_of_mem_chainOnto h with h | h
  · exact absurd h List.not_mem_nil
  · exact h

lemma holds_chainThrough (hs : positions.Pairwise (· < ·)) (h1 : pair.1 ∈ positions)
    (h2 : pair.2 ∈ positions) (hlt : pair.1 < pair.2) :
    holds (chainThrough positions length pair) pair = true := by
  have hsub : [pair.1, pair.2].Sublist positions := by
    exact List.sublist_of_subperm_of_pairwise (pair_subperm hlt.ne h1 h2) (List.pairwise_pair.mpr hlt) hs
  exact holds_iff.mpr ⟨mem_chainOnto hsub (by simp), mem_chainOnto hsub (by simp)⟩

lemma ends_mem_chainThrough {keys : Array ℕ} (h : pair ∈ maximalPairs keys positions length)
    (hs : positions.Pairwise (· < ·)) :
    pair.1 ∈ chainThrough positions length pair ∧ pair.2 ∈ chainThrough positions length pair := by
  obtain ⟨ha, hb, hle, hbefore, -⟩ := mem_maximalPairs.mp h
  have hne : pair.1 ≠ pair.2 := fun he => hbefore (by rw [he])
  have hheld : holds (chainThrough positions length pair) pair = true := holds_chainThrough hs ha hb (by omega)
  exact holds_iff.mp hheld

lemma coverPairs_concat (positions : List ℕ) (length : ℕ) (pairs : List (ℕ × ℕ)) (pair : ℕ × ℕ) :
    coverPairs positions length (pairs ++ [pair]) =
      addChain positions length (coverPairs positions length pairs) pair := by
  simp [coverPairs]

lemma exists_pair_of_mem_coverPairs (h : chain ∈ coverPairs positions length pairs) :
    ∃ pair ∈ pairs, chain = chainThrough positions length pair := by
  induction pairs using List.reverseRecOn with
  | nil => exact absurd h List.not_mem_nil
  | append_singleton pairs pair ih =>
    have hcases : chain ∈ coverPairs positions length pairs ∨ chain = chainThrough positions length pair := by
      rw [coverPairs_concat, addChain] at h
      split at h
      · exact Or.inl h
      · simpa using h
    rcases hcases with h | rfl
    · obtain ⟨pair', hm, he⟩ := ih h
      exact ⟨pair', List.mem_append_left _ hm, he⟩
    · exact ⟨pair, by simp, rfl⟩

lemma mem_of_mem_coverPairs (hc : chain ∈ coverPairs positions length pairs) (hp : p ∈ chain) : p ∈ positions := by
  obtain ⟨pair, -, rfl⟩ := exists_pair_of_mem_coverPairs hc
  exact mem_of_mem_chainThrough hp

lemma coverPairs_pairwise (hp : ∀ pair ∈ pairs, holds (chainThrough positions length pair) pair = true) :
    (coverPairs positions length pairs).Pairwise fun c c' => ∃ pair, holds c' pair = true ∧ holds c pair = false := by
  induction pairs using List.reverseRecOn with
  | nil => exact List.Pairwise.nil
  | append_singleton pairs last ih =>
    have ih := ih fun pair hm => hp pair (List.mem_append_left _ hm)
    rw [coverPairs_concat, addChain]
    split
    · exact ih
    · next hany =>
      refine List.pairwise_append.mpr ⟨ih, List.pairwise_singleton _ _, fun c hc c' hc' => ?_⟩
      obtain rfl := List.mem_singleton.mp hc'
      refine ⟨last, hp last (by simp), ?_⟩
      by_contra hheld
      exact hany (List.any_eq_true.mpr ⟨c, hc, by simpa using hheld⟩)

lemma exists_mem_coverPairs_holds
    (hp : ∀ pair ∈ pairs, holds (chainThrough positions length pair) pair = true) (h : pair ∈ pairs) :
    ∃ chain ∈ coverPairs positions length pairs, holds chain pair = true := by
  induction pairs using List.reverseRecOn with
  | nil => exact absurd h List.not_mem_nil
  | append_singleton pairs last ih =>
    rw [coverPairs_concat, addChain]
    rcases List.mem_append.mp h with hm | hm
    · obtain ⟨chain, hc, hh⟩ := ih (fun pair hm => hp pair (List.mem_append_left _ hm)) hm
      refine ⟨chain, ?_, hh⟩
      split
      · exact hc
      · exact List.mem_append_left _ hc
    · obtain rfl := List.mem_singleton.mp hm
      split
      · next ha => exact List.any_eq_true.mp ha
      · exact ⟨_, by simp, hp pair h⟩

end CodeClones.Duplication
