import CodeClones.Proofs.SuffixIndex.Counting
import CodeClones.Proofs.SuffixIndex.Order

/-! The order of all suffixes by doubling the number of elements compared. -/

namespace CodeClones.SuffixIndex

variable {m : Type → Type} [Monad m] [LawfulMonad m] [Access m] {keys order ranks : Array ℕ} {n k a b p q row : ℕ}

def Arranges (order : Array ℕ) (n : ℕ) : Prop := order.toList.Perm (List.range n)

namespace Arranges

variable (h : Arranges order n)

include h

lemma size_eq : order.size = n := by
  simpa using h.length_eq

lemma getElem?_eq (hr : row < n) : order.toList[row]? = some (order.getD row 0) := by
  simp [h.size_eq, hr]

lemma lt (hr : row < n) : order.getD row 0 < n :=
  List.mem_range.mp (h.mem_iff.mp (List.mem_of_getElem? (h.getElem?_eq hr)))

lemma exists_row (hp : p < n) : ∃ row < n, order.getD row 0 = p := by
  obtain ⟨row, he⟩ := List.getElem?_of_mem (h.mem_iff.mpr (List.mem_range.mpr hp))
  have hr : row < n := by
    obtain ⟨hl, -⟩ := List.getElem?_eq_some_iff.mp he
    simpa [h.size_eq] using hl
  exact ⟨row, hr, Option.some.inj ((h.getElem?_eq hr).symm.trans he)⟩

lemma pairwise_iff {R : ℕ → ℕ → Prop} :
    order.toList.Pairwise R ↔ ∀ a b, a < b → b < n → R (order.getD a 0) (order.getD b 0) := by
  rw [List.pairwise_iff_getElem]
  constructor
  · intro hr a b hab hb
    obtain ⟨hl, he⟩ := List.getElem?_eq_some_iff.mp (h.getElem?_eq (hab.trans hb))
    obtain ⟨hl', he'⟩ := List.getElem?_eq_some_iff.mp (h.getElem?_eq hb)
    rw [← he, ← he']
    exact hr a b hl hl' hab
  · intro hr a b ha hb hab
    have hn : b < n := by simpa [h.size_eq] using hb
    have he := List.getElem?_eq_some_iff.mp (h.getElem?_eq (hab.trans hn))
    have he' := List.getElem?_eq_some_iff.mp (h.getElem?_eq hn)
    rw [he.2, he'.2]
    exact hr a b hab hn

lemma ne (hab : a < b) (hb : b < n) : order.getD a 0 ≠ order.getD b 0 :=
  h.pairwise_iff.mp (h.nodup_iff.mpr List.nodup_range) a b hab hb

lemma inj (ha : a < n) (hb : b < n) (he : order.getD a 0 = order.getD b 0) : a = b := by
  rcases Nat.lt_trichotomy a b with hlt | rfl | hlt
  · exact absurd he (h.ne hlt hb)
  · rfl
  · exact absurd he.symm (h.ne hlt ha)

end Arranges

/-- The positions are in the order of the first `k` elements behind them, and ranked by these. -/
structure Realizes (keys : Array ℕ) (k : ℕ) (order ranks : Array ℕ) : Prop where
  perm : Arranges order keys.size
  sorted : order.toList.Pairwise fun p q => ¬ Below keys k q p
  size : ranks.size = keys.size
  first : ranks.getD (order.getD 0 0) 0 = 0
  next : ∀ row, row + 1 < keys.size → ranks.getD (order.getD (row + 1) 0) 0 =
    ranks.getD (order.getD row 0) 0 + if Agree keys k (order.getD row 0) (order.getD (row + 1) 0) then 0 else 1

/-! ### Ranks, row by row -/

structure Ranked (keys : Array ℕ) (k : ℕ) (order : Array ℕ) (stop : ℕ) (ranks : Array ℕ) : Prop where
  size : ranks.size = keys.size
  first : ranks.getD (order.getD 0 0) 0 = 0
  next : ∀ row, row + 1 < stop → ranks.getD (order.getD (row + 1) 0) 0 =
    ranks.getD (order.getD row 0) 0 + if Agree keys k (order.getD row 0) (order.getD (row + 1) 0) then 0 else 1

lemma Ranked.step {differ : ℕ → ℕ → m Bool} (h : Ranked keys k order (row + 1) ranks)
    (hp : Arranges order keys.size) (hr : row + 1 < keys.size)
    (hd : ∀ p < keys.size, ∀ q < keys.size, differ p q = pure (!decide (Agree keys k p q))) :
    Gives (do
      let before ← read order (← minus (row + 1) 1)
      let p ← read order (row + 1)
      write ranks p ((← read ranks before) + if ← differ before p then 1 else 0) : m _)
      (Ranked keys k order (row + 2)) := by
  have hsize := hp.size_eq
  have hbefore := hp.lt (Nat.lt_of_succ_lt hr)
  have hself := hp.lt hr
  have hlt : order.getD (row + 1) 0 < ranks.size := h.size ▸ hself
  rw [minus_eq (Nat.le_add_left 1 row), pure_bind, Nat.add_sub_cancel, read_eq (by omega), pure_bind,
    read_eq (hsize ▸ hr), pure_bind, read_eq (h.size ▸ hbefore), pure_bind, hd _ hbefore _ hself, pure_bind,
    write_eq hlt]
  have hother : ∀ r < row + 1, ∀ x, (ranks.setIfInBounds (order.getD (row + 1) 0) x).getD (order.getD r 0) 0 =
      ranks.getD (order.getD r 0) 0 := by
    intro r hlt' x
    rw [getD_setIfInBounds hlt, if_neg (hp.ne hlt' hr).symm]
  refine Gives.pure ⟨by simpa using h.size, ?_, fun r hstop => ?_⟩
  · rw [hother 0 (Nat.succ_pos row)]
    exact h.first
  · rcases Nat.lt_or_eq_of_le (Nat.le_of_lt_succ hstop) with hlt' | he
    · rw [hother (r + 1) hlt', hother r (by omega)]
      exact h.next r hlt'
    · obtain rfl : r = row := by omega
      rw [getD_setIfInBounds hlt, if_pos rfl, hother r (Nat.lt_succ_self r)]
      simp

lemma rankRowsM_gives {differ : ℕ → ℕ → m Bool} (hp : Arranges order keys.size)
    (hs : order.toList.Pairwise fun p q => ¬ Below keys k q p) (hr : ranks.size = keys.size)
    (h₀ : ranks.getD (order.getD 0 0) 0 = 0)
    (hd : ∀ p < keys.size, ∀ q < keys.size, differ p q = pure (!decide (Agree keys k p q))) :
    Gives (rankRowsM differ order ranks) (Realizes keys k order) := by
  have hstart : Ranked keys k order 1 ranks := ⟨hr, h₀, fun row hrow => absurd hrow (by omega)⟩
  refine (Gives.foldlM_range' hstart ?_).imp fun ranks h => ⟨hp, hs, h.size, h.first, fun row hrow => ?_⟩
  · intro row ranks hone hrow h
    have := hp.size_eq
    obtain ⟨row, rfl⟩ := Nat.exists_eq_add_of_le' hone
    exact h.step hp (by omega) hd
  · have := hp.size_eq
    exact h.next row (by omega)

/-! ### What ranks tell -/

namespace Realizes

variable (h : Realizes keys k order ranks)

include h

lemma rank_mono (hab : a ≤ b) (hb : b < keys.size) :
    ranks.getD (order.getD a 0) 0 ≤ ranks.getD (order.getD b 0) 0 := by
  induction b, hab using Nat.le_induction with
  | base => exact le_rfl
  | succ b hab ih =>
    rw [h.next b hb]
    exact (ih (by omega)).trans (Nat.le_add_right _ _)

lemma rank_le_add (hab : a ≤ b) (hb : b < keys.size) :
    ranks.getD (order.getD b 0) 0 ≤ ranks.getD (order.getD a 0) 0 + (b - a) := by
  induction b, hab using Nat.le_induction with
  | base => exact Nat.le_add_right _ _
  | succ b hab ih =>
    have hle := ih (by omega)
    have hnext := h.next b hb
    split at hnext <;> omega

lemma not_below (hab : a ≤ b) (hb : b < keys.size) : ¬ Below keys k (order.getD b 0) (order.getD a 0) := by
  rcases Nat.lt_or_eq_of_le hab with hlt | rfl
  · exact h.perm.pairwise_iff.mp h.sorted a b hlt hb
  · exact below_irrefl

lemma rank_row_lt_iff (hab : a ≤ b) (hb : b < keys.size) :
    ranks.getD (order.getD a 0) 0 < ranks.getD (order.getD b 0) 0 ↔ Below keys k (order.getD a 0) (order.getD b 0) := by
  induction b, hab using Nat.le_induction with
  | base => exact iff_of_false (Nat.lt_irrefl _) below_irrefl
  | succ b hab ih =>
    rw [h.next b hb]
    rcases below_trichotomy keys k (order.getD b 0) (order.getD (b + 1) 0) with hlt | ha | hlt
    · rw [if_neg hlt.not_agree]
      have hmono := h.rank_mono hab (by omega)
      refine iff_of_true (by omega) ?_
      exact (hlt.cases (order.getD a 0)).resolve_left (h.not_below hab (by omega))
    · rw [if_pos ha, Nat.add_zero, ih (by omega)]
      exact ⟨fun hb => hb.of_agree_right ha, fun hb => hb.of_agree_right ha.symm⟩
    · exact absurd hlt (h.not_below (Nat.le_succ b) hb)

lemma lt_iff (hp : p < keys.size) (hq : q < keys.size) : ranks.getD p 0 < ranks.getD q 0 ↔ Below keys k p q := by
  obtain ⟨a, ha, rfl⟩ := h.perm.exists_row hp
  obtain ⟨b, hb, rfl⟩ := h.perm.exists_row hq
  rcases Nat.le_total a b with hab | hba
  · exact h.rank_row_lt_iff hab hb
  · exact iff_of_false (h.rank_mono hba ha).not_gt (h.not_below hba ha)

lemma eq_iff (hp : p < keys.size) (hq : q < keys.size) : ranks.getD p 0 = ranks.getD q 0 ↔ Agree keys k p q := by
  rw [Nat.eq_iff_le_and_ge, ← not_lt, ← not_lt, h.lt_iff hq hp, h.lt_iff hp hq]
  rcases below_trichotomy keys k p q with hb | ha | hb
  · exact iff_of_false (fun hn => hn.2 hb) hb.not_agree
  · exact iff_of_true ⟨fun hb => hb.not_agree ha.symm, fun hb => hb.not_agree ha⟩ ha
  · exact iff_of_false (fun hn => hn.1 hb) fun ha => hb.not_agree ha.symm

lemma rank_row_le (hr : row < keys.size) : ranks.getD (order.getD row 0) 0 ≤ row := by
  have := h.rank_le_add (Nat.zero_le row) hr
  rw [h.first] at this
  omega

lemma rank_le_highest (hp : p < keys.size) : ranks.getD p 0 ≤ ranks.getD (order.getD (keys.size - 1) 0) 0 := by
  obtain ⟨row, hr, rfl⟩ := h.perm.exists_row hp
  exact h.rank_mono (by omega) (by omega)

lemma precedes_of_highest (hn : keys.size - 1 ≤ ranks.getD (order.getD (keys.size - 1) 0) 0) :
    order.toList.Pairwise (Precedes keys) := by
  apply h.perm.pairwise_iff.mpr
  intro a b hab hb
  have hrank := h.rank_row_le (hab.trans hb)
  have hhigh := h.rank_le_add (show b ≤ keys.size - 1 by omega) (by omega)
  exact ((h.rank_row_lt_iff hab.le hb).mp (by omega)).precedes

lemma precedes_of_size_le (hk : keys.size ≤ k) : order.toList.Pairwise (Precedes keys) := by
  apply h.perm.pairwise_iff.mpr
  intro a b hab hb
  rcases below_trichotomy keys k (order.getD a 0) (order.getD b 0) with hlt | ha | hlt
  · exact hlt.precedes
  · exact absurd (ha.mono hk) (not_agree_of_ne (h.perm.ne hab hb) (h.perm.lt (hab.trans hb)) (h.perm.lt hb))
  · exact absurd hlt (h.not_below hab.le hb)

/-! ### Twice as many elements -/

lemma pairwise_orderBehind : (orderBehind keys.size k order.toList).Pairwise fun p q =>
    ¬ Below keys k (q + k) (p + k) := by
  have hshort : ∀ p ∈ (List.range keys.size).drop (keys.size - k), keys.size ≤ p + k := by
    intro p hp
    obtain ⟨i, hi, rfl⟩ := List.mem_iff_getElem.mp hp
    rw [List.getElem_drop, List.getElem_range]
    omega
  rw [orderBehind, List.pairwise_append, List.pairwise_map]
  refine ⟨?_, ?_, fun p hp q _ => not_below_of_size_le (hshort p hp)⟩
  · exact List.pairwise_iff_forall_sublist.mpr fun hpq => not_below_of_size_le (hshort _ (hpq.subset (by simp)))
  · apply (h.sorted.filter _).imp_of_mem
    intro p q hp hq hpq
    have hp := of_decide_eq_true (List.mem_filter.mp hp).2
    have hq := of_decide_eq_true (List.mem_filter.mp hq).2
    rwa [Nat.sub_add_cancel hp, Nat.sub_add_cancel hq]

lemma pairwise_grouped {s : List ℕ} (hs : ∀ p ∈ s, p < keys.size)
    (hb : s.Pairwise fun p q => ¬ Below keys k (q + k) (p + k)) (classes : ℕ) :
    (grouped (ranks.getD · 0) s classes).Pairwise fun p q => ¬ Below keys (2 * k) q p := by
  have hmem : ∀ {c p : ℕ}, p ∈ group (ranks.getD · 0) s c → p < keys.size ∧ ranks.getD p 0 = c := by
    intro c p hp
    exact ⟨hs p (List.mem_of_mem_filter hp), of_decide_eq_true (List.mem_filter.mp hp).2⟩
  rw [grouped, List.pairwise_flatMap, Nat.two_mul]
  constructor
  · intro c _
    apply (hb.filter _).imp_of_mem
    intro p q hp hq hpq hbelow
    obtain ⟨hp, hcp⟩ := hmem hp
    obtain ⟨hq, hcq⟩ := hmem hq
    rcases below_add.mp hbelow with hlt | ⟨-, hlt⟩
    · exact hlt.not_agree ((h.eq_iff hq hp).mp (hcq.trans hcp.symm))
    · exact hpq hlt
  · apply List.pairwise_lt_range.imp
    intro c d hcd p hp q hq hbelow
    obtain ⟨hp', rfl⟩ := hmem hp
    obtain ⟨hq', rfl⟩ := hmem hq
    exact (((h.lt_iff hp' hq').mp hcd).mono (Nat.le_add_right k k)).asymm hbelow

lemma getElem?_eq_iff (hk : 0 < k) : ranks[p]? = ranks[q]? ↔ Agree keys k p q := by
  rcases Nat.lt_or_ge p keys.size with hp | hp
  · rcases Nat.lt_or_ge q keys.size with hq | hq
    · rw [← h.eq_iff hp hq]
      simp [h.size, hp, hq]
    · have hne : ¬ Agree keys k p q := fun ha => by simpa [hp, hq] using ha 0 hk
      simpa [h.size, hp, hq] using hne
  · rcases Nat.lt_or_ge q keys.size with hq | hq
    · have hne : ¬ Agree keys k p q := fun ha => by simpa [hp, hq] using ha 0 hk
      simpa [h.size, hp, hq] using hne
    · rw [Array.getElem?_eq_none (h.size ▸ hp), Array.getElem?_eq_none (h.size ▸ hq)]
      refine iff_of_true rfl fun i _ => ?_
      rw [Array.getElem?_eq_none (by omega), Array.getElem?_eq_none (by omega)]

lemma differM_eq (hk : 0 < k) (hp : p < keys.size) (hq : q < keys.size) :
    (Doubling.differM ranks k p q : m Bool) = pure (!decide (Agree keys (2 * k) p q)) := by
  have hiff : Agree keys (2 * k) p q ↔ ranks.getD p 0 = ranks.getD q 0 ∧ ranks[p + k]? = ranks[q + k]? := by
    rw [h.eq_iff hp hq, h.getElem?_eq_iff hk, Nat.two_mul, agree_add]
  rw [Doubling.differM, read_eq (h.size ▸ hp), pure_bind, read_eq (h.size ▸ hq), pure_bind]
  by_cases he : ranks.getD p 0 = ranks.getD q 0
  · rw [if_neg (not_not_intro he)]
    simp only [hiff, he, true_and, decide_not]
  · rw [if_pos he]
    simp only [hiff, he, false_and, decide_false, Bool.not_false]

end Realizes

namespace Doubling

variable {d : Doubling} {width : ℕ}

structure Valid (keys : Array ℕ) (k : ℕ) (d : Doubling) : Prop where
  realizes : Realizes keys k d.order d.ranks
  spare : d.spare.size = keys.size
  behind : d.behind.size = keys.size
  counts : d.counts.size = keys.size + 1

lemma Valid.highestRankM_eq (h : d.Valid keys k) (hn : 0 < keys.size) :
    (d.highestRankM : m ℕ) = pure (d.ranks.getD (d.order.getD (keys.size - 1) 0) 0) := by
  have hsize := h.realizes.perm.size_eq
  have hlt := h.realizes.perm.lt (Nat.sub_lt hn Nat.one_pos)
  rw [highestRankM, hsize, minus_eq hn, pure_bind, read_eq (by omega), pure_bind, read_eq (h.realizes.size ▸ hlt)]

/-- One round of sorting by counting orders the positions by twice as many elements. -/
lemma Valid.roundM (h : d.Valid keys width) (hw : 0 < width) (hn : 0 < keys.size) :
    Gives (d.roundM width : m Doubling) (Valid keys (2 * width)) := by
  have hr := h.realizes
  have hperm := orderBehind_perm hr.perm width
  have hlast := hr.rank_row_le (Nat.sub_lt hn Nat.one_pos)
  have hlt : ∀ p < keys.size, d.ranks.getD p 0 < d.ranks.getD (d.order.getD (keys.size - 1) 0) 0 + 1 :=
    fun p hp => Nat.lt_succ_of_le (hr.rank_le_highest hp)
  have hmem : ∀ r ∈ d.ranks.toList, r < d.ranks.getD (d.order.getD (keys.size - 1) 0) 0 + 1 := by
    intro r hm
    obtain ⟨p, hp, rfl⟩ := List.mem_iff_getElem.mp hm
    have hp' : p < keys.size := by simpa [hr.size] using hp
    simpa [hr.size, hp'] using hlt p hp'
  rw [Doubling.roundM]
  apply (orderBehindM_gives hr.perm h.behind width).bind
  rintro behind rfl
  rw [h.highestRankM_eq hn, pure_bind]
  apply (countLowerM_gives (by have := h.counts; omega) hmem).bind
  rintro counts ⟨hcounts, hlower⟩
  apply (place_gives (hr.size ▸ hperm) (hr.size ▸ hlt) (hr.perm.size_eq.trans hr.size.symm)
    (by have := h.counts; omega) fun c hc => hlower c hc.le).bind
  rintro ⟨order, next⟩ ⟨rfl, hnext⟩
  have hin : ∀ p ∈ orderBehind keys.size width d.order.toList, p < keys.size := fun p hp =>
    List.mem_range.mp (hperm.mem_iff.mp hp)
  have harranged : Arranges (grouped (d.ranks.getD · 0) (orderBehind keys.size width d.order.toList)
      (d.ranks.getD (d.order.getD (keys.size - 1) 0) 0 + 1)).toArray keys.size :=
    (grouped_perm fun p hp => hlt p (hin p hp)).trans hperm
  have hsorted := hr.pairwise_grouped hin hr.pairwise_orderBehind
    (d.ranks.getD (d.order.getD (keys.size - 1) 0) 0 + 1)
  generalize grouped (d.ranks.getD · 0) (orderBehind keys.size width d.order.toList)
    (d.ranks.getD (d.order.getD (keys.size - 1) 0) 0 + 1) = order at harranged hsorted ⊢
  have hfirst := harranged.lt hn
  rw [read_eq (harranged.size_eq.symm ▸ hn), pure_bind, write_eq (h.spare ▸ hfirst), pure_bind]
  apply (rankRowsM_gives harranged hsorted (by simpa using h.spare) _ fun p hp q hq =>
    hr.differM_eq hw hp hq).bind
  · intro ranks hranks
    exact Gives.pure ⟨hranks, hr.size, by simpa using hperm.length_eq, hnext.trans (hcounts.trans h.counts)⟩
  · rw [getD_setIfInBounds (h.spare ▸ hfirst), if_pos rfl]

lemma Valid.refineM (h : d.Valid keys width) (hw : 0 < width) (hn : 0 < keys.size) :
    Gives (Doubling.refineM keys.size width hw d : m Doubling) fun d =>
      Arranges d.order keys.size ∧ d.order.toList.Pairwise (Precedes keys) := by
  induction hk : keys.size - width using Nat.strong_induction_on generalizing width d with
  | _ left ih =>
    rw [Doubling.refineM, h.highestRankM_eq hn, pure_bind, minus_eq hn, pure_bind]
    split
    · apply (h.roundM hw hn).bind
      intro next hnext
      split
      · next hle => exact Gives.pure ⟨hnext.realizes.perm, hnext.realizes.precedes_of_size_le hle⟩
      · next hle => exact ih _ (by omega) hnext _ rfl
    · next hle => exact Gives.pure ⟨h.realizes.perm, h.realizes.precedes_of_highest (by omega)⟩

end Doubling

/-! ### From the order of the first elements -/

lemma not_below_one (hp : p < keys.size) (hq : q < keys.size) (h : keys.getD p 0 ≤ keys.getD q 0) :
    ¬ Below keys 1 q p := by
  rw [below_one]
  simpa [weight, hp, hq] using h

lemma sortPositionsM_gives (keys : Array ℕ) : Gives (sortPositionsM keys : m _) fun order =>
    Arranges order keys.size ∧ order.toList.Pairwise fun p q => ¬ Below keys 1 q p := by
  have hkeyed := mapM_eq_pure (m := m) (s := List.range keys.size) (g := fun p => (keys.getD p 0, p))
    (f := fun p => do return (← read keys p, p)) fun p hp => by rw [read_eq (List.mem_range.mp hp), pure_bind]
  rw [sortPositionsM, hkeyed, pure_bind]
  have hmem : ∀ x ∈ (List.range keys.size).map (fun p => (keys.getD p 0, p)),
      x.2 < keys.size ∧ x.1 = keys.getD x.2 0 := by
    intro x hx
    obtain ⟨p, hp, rfl⟩ := List.mem_map.mp hx
    exact ⟨List.mem_range.mp hp, rfl⟩
  generalize hs : (List.range keys.size).map (fun p => (keys.getD p 0, p)) = s at hmem
  have hsnd : s.map (·.2) = List.range keys.size := by
    rw [← hs, List.map_map]
    exact List.map_id _
  refine Gives.pure ⟨((List.mergeSort_perm s _).map _).trans (.of_eq hsnd), List.pairwise_map.mpr ?_⟩
  have hsorted := @List.pairwise_mergeSort (ℕ × ℕ) (fun x y => decide (x.1 ≤ y.1))
    (fun x y z hxy hyz => decide_eq_true ((of_decide_eq_true hxy).trans (of_decide_eq_true hyz)))
    (fun x y => by simpa using Nat.le_total x.1 y.1) s
  apply hsorted.imp_of_mem
  intro x y hx hy hxy
  obtain ⟨hx, hkx⟩ := hmem x (List.mem_mergeSort.mp hx)
  obtain ⟨hy, hky⟩ := hmem y (List.mem_mergeSort.mp hy)
  have hle := of_decide_eq_true hxy
  rw [hkx, hky] at hle
  exact not_below_one hx hy hle

lemma orderFromM_gives (hn : 0 < keys.size) (hp : Arranges order keys.size)
    (hs : order.toList.Pairwise fun p q => ¬ Below keys 1 q p) : Gives (orderFromM keys order : m _) fun order =>
    Arranges order keys.size ∧ order.toList.Pairwise (Precedes keys) := by
  have hzero : ∀ p, (Array.replicate keys.size 0).getD p 0 = 0 := fun p => by
    simp [Array.getElem?_replicate, apply_ite (Option.getD · 0)]
  rw [orderFromM]
  apply (rankRowsM_gives hp hs (Array.size_replicate ..) (hzero _) fun p hp q hq => ?_).bind
  · intro ranks hr
    apply (Doubling.Valid.refineM ⟨hr, Array.size_replicate .., Array.size_replicate .., Array.size_replicate ..⟩
      Nat.one_pos hn).bind
    intro d hd
    exact Gives.pure hd
  · rw [read_eq hp, pure_bind, read_eq hq, pure_bind]
    simp [agree_one, hp, hq]

lemma orderM_gives (keys : Array ℕ) : Gives (orderM keys : m _) fun order =>
    Arranges order keys.size ∧ order.toList.Pairwise (Precedes keys) := by
  rw [orderM]
  split
  · next h0 =>
    refine Gives.pure ⟨?_, .nil⟩
    rw [h0]
    exact .refl _
  · next h0 =>
    apply (sortPositionsM_gives keys).bind
    rintro order ⟨hp, hs⟩
    exact orderFromM_gives (Nat.pos_of_ne_zero h0) hp hs

end CodeClones.SuffixIndex
