import CodeClones.Proofs.Duplication.Chain

/-! A chain is decided from left to right: which positions it takes up to some point does not depend on those
behind that are not forced. -/

namespace CodeClones.Duplication

variable {length a p q : ℕ} {kept forced positions following : List ℕ} {pair : ℕ × ℕ}

lemma add_le_of_head? (hk : kept.Pairwise (· > ·)) (h : kept.head?.all (· + length ≤ p) = true) (hq : q ∈ kept) :
    q + length ≤ p := by
  cases kept with
  | nil => exact absurd hq List.not_mem_nil
  | cons last kept =>
    have hlast : last + length ≤ p := by simpa using h
    rcases List.mem_cons.mp hq with rfl | hq
    · exact hlast
    · have := (List.pairwise_cons.mp hk).1 q hq
      omega

lemma le_of_head? (hf : forced.Pairwise (· < ·)) (h : forced.head?.all (p + length ≤ ·) = true) (hq : q ∈ forced) :
    p + length ≤ q := by
  cases forced with
  | nil => exact absurd hq List.not_mem_nil
  | cons next forced =>
    have hnext : p + length ≤ next := by simpa using h
    rcases List.mem_cons.mp hq with rfl | hq
    · exact hnext
    · have := (List.pairwise_cons.mp hf).1 q hq
      omega

lemma sublist_of_head?_ne (h : forced.Sublist (a :: following)) (hne : forced.head? ≠ some a) :
    forced.Sublist following := by
  rcases List.sublist_cons_iff.mp h with h | ⟨rest, rfl, -⟩
  · exact h
  · exact absurd rfl hne

lemma mem_chainOnto_cons_iff (hs : (a :: following).Pairwise (· < ·)) (hf : forced.Sublist (a :: following))
    (hk : kept.Pairwise (· > ·)) (hlt : ∀ q ∈ kept, q < a) :
    a ∈ chainOnto length kept forced (a :: following) ↔ a ∈ forced ∨
      (∀ q ∈ chainOnto length kept forced (a :: following), q < a → q + length ≤ a) ∧
        ∀ q ∈ forced, a < q → a + length ≤ q := by
  have hfollow := (List.pairwise_cons.mp hs).1
  constructor
  · intro h
    rw [chainOnto] at h ⊢
    split
    · next hp =>
      obtain ⟨rest, rfl⟩ := List.head?_eq_some_iff.mp hp
      exact Or.inl List.mem_cons_self
    · next hp =>
      rw [if_neg hp] at h
      right
      split
      · next hr =>
        rw [Bool.and_eq_true] at hr
        refine ⟨fun q hq hqa => ?_, fun q hq _ => le_of_head? (hs.sublist hf) hr.2 hq⟩
        rcases mem_of_mem_chainOnto hq with hq | hq
        · rcases List.mem_cons.mp hq with rfl | hq
          · exact absurd hqa (lt_irrefl _)
          · exact add_le_of_head? hk hr.1 hq
        · exact absurd (hfollow q hq) (by omega)
      · next hr =>
        rw [if_neg hr] at h
        rcases mem_of_mem_chainOnto h with h | h
        · exact absurd (hlt a h) (lt_irrefl _)
        · exact absurd (hfollow a h) (lt_irrefl _)
  · rintro (h | ⟨hbefore, hbehind⟩)
    · exact mem_chainOnto hf (Or.inr h)
    · by_cases hp : a ∈ forced
      · exact mem_chainOnto hf (Or.inr hp)
      · have hhead : forced.head? ≠ some a := fun he => hp (List.mem_of_mem_head? he)
        have hsub := sublist_of_head?_ne hf hhead
        have hroom : (kept.head?.all (· + length ≤ a) && forced.head?.all (a + length ≤ ·)) = true := by
          rw [Bool.and_eq_true]
          constructor
          · cases hl : kept.head? with
            | none => rfl
            | some last =>
              have hm := List.mem_of_mem_head? hl
              simpa using hbefore last (mem_chainOnto hf (Or.inl hm)) (hlt last hm)
          · cases hn : forced.head? with
            | none => rfl
            | some next =>
              have hm := List.mem_of_mem_head? hn
              simpa using hbehind next hm (hfollow next (hsub.subset hm))
        rw [chainOnto, if_neg hhead, if_pos hroom]
        exact mem_chainOnto hsub (Or.inl List.mem_cons_self)

/-- The chain is the only choice among the positions that is made in this way, from left to right. -/
lemma mem_chainOnto_iff (hs : positions.Pairwise (· < ·)) (hf : forced.Sublist positions)
    (hk : kept.Pairwise (· > ·)) (hlt : ∀ q ∈ kept, ∀ p ∈ positions, q < p) (hp : p ∈ positions) :
    p ∈ chainOnto length kept forced positions ↔ p ∈ forced ∨
      (∀ q ∈ chainOnto length kept forced positions, q < p → q + length ≤ p) ∧
        ∀ q ∈ forced, p < q → p + length ≤ q := by
  induction positions generalizing kept forced with
  | nil => exact absurd hp List.not_mem_nil
  | cons a following ih =>
    rcases List.mem_cons.mp hp with rfl | hp
    · exact mem_chainOnto_cons_iff hs hf hk fun q hq => hlt q hq p List.mem_cons_self
    obtain ⟨ha, hs⟩ := List.pairwise_cons.mp hs
    have hap := ha p hp
    have hk' : (a :: kept).Pairwise (· > ·) :=
      List.pairwise_cons.mpr ⟨fun q hq => hlt q hq a List.mem_cons_self, hk⟩
    have hlt' : ∀ q ∈ a :: kept, ∀ r ∈ following, q < r := by
      intro q hq r hr
      rcases List.mem_cons.mp hq with rfl | hq
      · exact ha r hr
      · exact hlt q hq r (List.mem_cons_of_mem _ hr)
    rw [chainOnto]
    split
    · next hhead =>
      obtain ⟨rest, rfl⟩ := List.head?_eq_some_iff.mp hhead
      rw [List.tail_cons, ih hs (List.cons_sublist_cons.mp hf) hk' hlt' hp, List.mem_cons, List.forall_mem_cons]
      constructor
      · rintro (h | ⟨h, h'⟩)
        · exact Or.inl (Or.inr h)
        · exact Or.inr ⟨h, fun hlt => absurd hlt (by omega), h'⟩
      · rintro ((h | h) | ⟨h, -, h'⟩)
        · exact absurd h hap.ne'
        · exact Or.inl h
        · exact Or.inr ⟨h, h'⟩
    · next hhead =>
      have hsub := sublist_of_head?_ne hf hhead
      split
      · exact ih hs hsub hk' hlt' hp
      · exact ih hs hsub hk (fun q hq p hp => hlt q hq p (List.mem_cons_of_mem _ hp)) hp

lemma mem_chain_iff (hs : positions.Pairwise (· < ·)) (hf : forced.Sublist positions) :
    p ∈ chainOnto length [] forced positions ↔ p ∈ positions ∧ (p ∈ forced ∨
      (∀ q ∈ chainOnto length [] forced positions, q < p → q + length ≤ p) ∧
        ∀ q ∈ forced, p < q → p + length ≤ q) := by
  constructor
  · intro h
    have hp := (mem_of_mem_chainOnto h).resolve_left List.not_mem_nil
    exact ⟨hp, (mem_chainOnto_iff hs hf List.Pairwise.nil (by simp) hp).mp h⟩
  · rintro ⟨hp, h⟩
    exact (mem_chainOnto_iff hs hf List.Pairwise.nil (by simp) hp).mpr h

lemma mem_chainThrough_iff (hs : positions.Pairwise (· < ·)) (h1 : pair.1 ∈ positions) (h2 : pair.2 ∈ positions)
    (hlt : pair.1 < pair.2) :
    p ∈ chainThrough positions length pair ↔ p ∈ positions ∧ ((p = pair.1 ∨ p = pair.2) ∨
      (∀ q ∈ chainThrough positions length pair, q < p → q + length ≤ p) ∧
        ∀ q, q = pair.1 ∨ q = pair.2 → p < q → p + length ≤ q) := by
  have hsub : [pair.1, pair.2].Sublist positions :=
    List.sublist_of_subperm_of_pairwise (pair_subperm hlt.ne h1 h2) (List.pairwise_pair.mpr hlt) hs
  rw [chainThrough, mem_chain_iff hs hsub]
  simp only [List.mem_cons, List.not_mem_nil, or_false]

end CodeClones.Duplication
