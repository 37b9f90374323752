import CodeClones.Proofs.Duplication.Greedy

/-! The chains that cover pairs of positions: no position can be added to any of them, every pair is on one of them,
and each is there for a pair that no chain before it holds. -/

namespace CodeClones.Duplication

variable {length p : ℕ} {positions chain chain' : List ℕ} {pair : ℕ × ℕ} {pairs : List (ℕ × ℕ)}
  {chains : List (List ℕ)}

def IsPairOf (positions : List ℕ) (length : ℕ) (pair : ℕ × ℕ) : Prop :=
  pair.1 ∈ positions ∧ pair.2 ∈ positions ∧ pair.1 + length ≤ pair.2

structure IsMaximalChain (positions : List ℕ) (length : ℕ) (chain : List ℕ) : Prop where
  ascending : chain.Pairwise (· < ·)
  listed : ∀ p ∈ chain, p ∈ positions
  apart : chain.Pairwise fun p q => p + length ≤ q
  maximal : ∀ p ∈ positions, p ∉ chain → ∃ q ∈ chain, p < q + length ∧ q < p + length

def AreFresh (pairs : List (ℕ × ℕ)) (chains : List (List ℕ)) : Prop :=
  ∀ i chain, chains[i]? = some chain → ∃ pair ∈ pairs, (pair.1 ∈ chain ∧ pair.2 ∈ chain) ∧
    ∀ earlier ∈ chains.take i, ¬ (pair.1 ∈ earlier ∧ pair.2 ∈ earlier)

structure IsCover (positions : List ℕ) (length : ℕ) (pairs : List (ℕ × ℕ)) (chains : List (List ℕ)) : Prop where
  areMaximal : ∀ chain ∈ chains, IsMaximalChain positions length chain
  held : ∀ pair ∈ pairs, ∃ chain ∈ chains, pair.1 ∈ chain ∧ pair.2 ∈ chain
  fresh : AreFresh pairs chains
  distinct : chains.Nodup
  clash : ∀ chain ∈ chains, ∀ chain' ∈ chains, chain ≠ chain' →
    ∃ p ∈ chain ++ chain', ∃ q ∈ chain ++ chain', p < q ∧ q < p + length

/-- A search that is right on ascending lists; of other lists it may say anything. -/
def FindsInAscending (search : List ℕ → ℕ → Bool) : Prop :=
  ∀ chain p, chain.Pairwise (· < ·) → (search chain p = true ↔ p ∈ chain)

def addChainBy (search : List ℕ → ℕ → Bool) (positions : List ℕ) (length : ℕ) (chains : List (List ℕ))
    (pair : ℕ × ℕ) : List (List ℕ) :=
  if chains.any (fun chain => search chain pair.1 && search chain pair.2) then chains
  else chains ++ [chainThrough positions length pair]

def coverPairsBy (search : List ℕ → ℕ → Bool) (positions : List ℕ) (length : ℕ) (pairs : List (ℕ × ℕ)) :
    List (List ℕ) :=
  pairs.foldl (addChainBy search positions length) []

lemma addChainBy_eq {search : List ℕ → ℕ → Bool} (hsearch : FindsInAscending search)
    (h : ∀ chain ∈ chains, chain.Pairwise (· < ·)) :
    addChainBy search positions length chains pair = addChain positions length chains pair := by
  have hany : chains.any (fun chain => search chain pair.1 && search chain pair.2) = chains.any (holds · pair) := by
    apply Bool.eq_iff_iff.mpr
    rw [List.any_eq_true, List.any_eq_true]
    apply exists_congr
    intro chain
    apply and_congr_right
    intro hc
    rw [Bool.and_eq_true, hsearch chain _ (h chain hc), hsearch chain _ (h chain hc), holds_iff]
  rw [addChainBy, hany, addChain]

namespace IsMaximalChain

lemma exists_near (h : IsMaximalChain positions length chain) (h' : IsMaximalChain positions length chain')
    (hp : p ∈ chain) (hn : p ∉ chain') : ∃ q ∈ chain', (p < q ∧ q < p + length) ∨ (q < p ∧ p < q + length) := by
  obtain ⟨q, hq, hpq, hqp⟩ := h'.maximal p (h.listed p hp) hn
  have hne : p ≠ q := by
    rintro rfl
    exact hn hq
  refine ⟨q, hq, ?_⟩
  omega

lemma exists_clash (h : IsMaximalChain positions length chain) (h' : IsMaximalChain positions length chain')
    (hp : p ∈ chain) (hn : p ∉ chain') : ∃ p ∈ chain ++ chain', ∃ q ∈ chain ++ chain', p < q ∧ q < p + length := by
  obtain ⟨q, hq, hnear | hnear⟩ := h.exists_near h' hp hn
  · exact ⟨p, List.mem_append_left _ hp, q, List.mem_append_right _ hq, hnear⟩
  · exact ⟨q, List.mem_append_right _ hq, p, List.mem_append_left _ hp, hnear⟩

lemma clash (h : IsMaximalChain positions length chain) (h' : IsMaximalChain positions length chain')
    (hne : chain ≠ chain') : ∃ p ∈ chain ++ chain', ∃ q ∈ chain ++ chain', p < q ∧ q < p + length := by
  by_cases hsub : ∀ p ∈ chain, p ∈ chain'
  · have hmore : ∃ p ∈ chain', p ∉ chain := by
      by_contra hsame
      push Not at hsame
      exact hne (List.Perm.eq_of_pairwise (fun p q _ _ hpq hqp => absurd hpq hqp.asymm) h.ascending h'.ascending
        ((List.perm_ext_iff_of_nodup h.ascending.nodup h'.ascending.nodup).mpr fun p => ⟨hsub p, hsame p⟩))
    obtain ⟨p, hp, hn⟩ := hmore
    obtain ⟨q, hq, r, hr, hqr⟩ := h'.exists_clash h hp hn
    rw [List.mem_append, or_comm, ← List.mem_append] at hq hr
    exact ⟨q, hq, r, hr, hqr⟩
  · push Not at hsub
    obtain ⟨p, hp, hn⟩ := hsub
    exact h.exists_clash h' hp hn

end IsMaximalChain

lemma AreFresh.mono {more : List (ℕ × ℕ)} (h : AreFresh pairs chains) (hsub : pairs ⊆ more) : AreFresh more chains := by
  intro i chain hi
  obtain ⟨pair, hm, hh⟩ := h i chain hi
  exact ⟨pair, hsub hm, hh⟩

lemma AreFresh.concat (h : AreFresh pairs chains) (hm : pair ∈ pairs) (hheld : pair.1 ∈ chain ∧ pair.2 ∈ chain)
    (hnew : ∀ earlier ∈ chains, ¬ (pair.1 ∈ earlier ∧ pair.2 ∈ earlier)) : AreFresh pairs (chains ++ [chain]) := by
  intro i found hi
  rcases Nat.lt_trichotomy i chains.length with hlt | rfl | hgt
  · rw [List.getElem?_append_left hlt] at hi
    rw [List.take_append_of_le_length hlt.le]
    exact h i found hi
  · rw [List.getElem?_concat_length, Option.some.injEq] at hi
    subst hi
    rw [List.take_left]
    exact ⟨pair, hm, hheld, hnew⟩
  · rw [List.getElem?_eq_none (by rw [List.length_append]; exact hgt)] at hi
    exact absurd hi (by simp)

lemma AreFresh.nodup (h : AreFresh pairs chains) : chains.Nodup := by
  apply List.pairwise_iff_getElem.mpr
  intro i j hi hj hij heq
  obtain ⟨pair, -, hheld, hnew⟩ := h j chains[j] (List.getElem?_eq_getElem hj)
  refine hnew chains[i] ?_ (heq ▸ hheld)
  exact List.mem_take_iff_getElem.mpr ⟨i, by omega, rfl⟩

section

variable (hs : positions.Pairwise (· < ·)) (hl : 0 < length)

include hs hl

lemma holds_of_isPairOf (h : IsPairOf positions length pair) :
    holds (chainThrough positions length pair) pair = true := by
  obtain ⟨h1, h2, hle⟩ := h
  exact holds_chainThrough hs h1 h2 (by omega)

lemma isMaximalChain_chainThrough (h : IsPairOf positions length pair) :
    IsMaximalChain positions length (chainThrough positions length pair) := by
  have hheld := holds_iff.mp (holds_of_isPairOf hs hl h)
  obtain ⟨h1, h2, hle⟩ := h
  have hapart := chainThrough_pairwise positions hle
  refine ⟨hapart.imp fun h => ?_, fun p => mem_of_mem_chainThrough, hapart, fun p hp hn => ?_⟩
  · unfold Apart at h
    omega
  · rw [mem_chainThrough_iff hs h1 h2 (by omega), not_and, not_or, not_and_or] at hn
    obtain ⟨-, hnear | hnear⟩ := hn hp
    · push Not at hnear
      obtain ⟨q, hq, hlt, hnear⟩ := hnear
      exact ⟨q, hq, hnear, by omega⟩
    · push Not at hnear
      obtain ⟨q, hq, hlt, hnear⟩ := hnear
      refine ⟨q, ?_, by omega, hnear⟩
      rcases hq with rfl | rfl
      · exact hheld.1
      · exact hheld.2

variable (hp : ∀ pair ∈ pairs, IsPairOf positions length pair)

include hp

lemma isMaximalChain_of_mem (h : chain ∈ coverPairs positions length pairs) :
    IsMaximalChain positions length chain := by
  obtain ⟨pair, hm, rfl⟩ := exists_pair_of_mem_coverPairs h
  exact isMaximalChain_chainThrough hs hl (hp pair hm)

lemma areFresh_coverPairs : AreFresh pairs (coverPairs positions length pairs) := by
  induction pairs using List.reverseRecOn with
  | nil => simp [AreFresh, coverPairs]
  | append_singleton pairs last ih =>
    have hmono := (ih fun pair hm => hp pair (List.mem_append_left _ hm)).mono (List.subset_append_left pairs [last])
    rw [coverPairs_concat, addChain]
    split
    · exact hmono
    · next hany =>
      have hlast : last ∈ pairs ++ [last] := by simp
      apply hmono.concat hlast (holds_iff.mp (holds_of_isPairOf hs hl (hp last hlast)))
      intro earlier he hheld
      exact hany (List.any_eq_true.mpr ⟨earlier, he, holds_iff.mpr hheld⟩)

lemma coverPairsBy_eq {search : List ℕ → ℕ → Bool} (hsearch : FindsInAscending search) :
    coverPairsBy search positions length pairs = coverPairs positions length pairs := by
  induction pairs using List.reverseRecOn with
  | nil => rfl
  | append_singleton pairs last ih =>
    have hp : ∀ pair ∈ pairs, IsPairOf positions length pair := fun pair hm => hp pair (List.mem_append_left _ hm)
    have hconcat : coverPairsBy search positions length (pairs ++ [last]) =
        addChainBy search positions length (coverPairsBy search positions length pairs) last := by
      simp [coverPairsBy]
    rw [hconcat, ih hp, coverPairs_concat]
    exact addChainBy_eq hsearch fun chain hc => (isMaximalChain_of_mem hs hl hp hc).ascending

theorem isCover_coverPairs : IsCover positions length pairs (coverPairs positions length pairs) ∧
    ∀ search, FindsInAscending search →
      coverPairsBy search positions length pairs = coverPairs positions length pairs := by
  have hmaximal : ∀ chain ∈ coverPairs positions length pairs, IsMaximalChain positions length chain :=
    fun chain => isMaximalChain_of_mem hs hl hp
  have hfresh := areFresh_coverPairs hs hl hp
  refine ⟨⟨hmaximal, ?_, hfresh, hfresh.nodup, ?_⟩, fun search => coverPairsBy_eq hs hl hp⟩
  · intro pair hm
    obtain ⟨chain, hc, hheld⟩ :=
      exists_mem_coverPairs_holds (fun pair hm => holds_of_isPairOf hs hl (hp pair hm)) hm
    exact ⟨chain, hc, holds_iff.mp hheld⟩
  · intro chain hc chain' hc' hne
    exact (hmaximal chain hc).clash (hmaximal chain' hc') hne

end

theorem isCover_coverPairs_two : [0, 2, 5].Pairwise (· < ·) ∧ 0 < 3 ∧
    (∀ pair ∈ [(0, 5), (2, 5)], IsPairOf [0, 2, 5] 3 pair) ∧
    coverPairs [0, 2, 5] 3 [(0, 5), (2, 5)] = [[0, 5], [2, 5]] ∧
    IsCover [0, 2, 5] 3 [(0, 5), (2, 5)] [[0, 5], [2, 5]] ∧
    ∀ search, FindsInAscending search → coverPairsBy search [0, 2, 5] 3 [(0, 5), (2, 5)] = [[0, 5], [2, 5]] := by
  have hs : [0, 2, 5].Pairwise (· < ·) := by decide
  have hp : ∀ pair ∈ [(0, 5), (2, 5)], IsPairOf [0, 2, 5] 3 pair := by simp [IsPairOf]
  exact ⟨hs, by decide, hp, rfl, isCover_coverPairs hs (by decide) hp⟩

end CodeClones.Duplication
