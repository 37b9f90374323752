import CodeClones.Proofs.CommonBeginning
import CodeClones.Proofs.SuffixIndex.Ranking

/-! How many elements each suffix shares with the one before it, and the index as a whole. -/

namespace CodeClones.SuffixIndex

variable {m : Type → Type} [Monad m] [LawfulMonad m] [Access m] {keys starts rows : Array ℕ} {h p q row : ℕ}

structure IsShared (keys : Array ℕ) (p q h : ℕ) : Prop where
  agree : Agree keys h p q
  differ : keys[p + h]? ≠ keys[q + h]?

lemma IsShared.symm (hs : IsShared keys p q h) : IsShared keys q p h :=
  ⟨hs.agree.symm, hs.differ.symm⟩

lemma IsShared.agree_iff {k : ℕ} (hs : IsShared keys p q h) : Agree keys k p q ↔ k ≤ h := by
  refine ⟨fun ha => ?_, hs.agree.mono⟩
  by_contra hk
  exact hs.differ (ha h (by omega))

lemma commonLengthM_gives (ha : Agree keys h p q) (hn : p ≠ q) (hp : p ≤ keys.size) (hq : q ≤ keys.size) :
    Gives (commonLengthM keys p q h : m ℕ) (IsShared keys p q) := by
  induction hk : keys.size - (p + h) using Nat.strong_induction_on generalizing h with
  | _ left ih =>
    rw [commonLengthM]
    split
    · next hc =>
      rw [read_eq hc.1, pure_bind, read_eq hc.2, pure_bind]
      have heq : keys.getD (p + h) 0 = keys.getD (q + h) 0 ↔ keys[p + h]? = keys[q + h]? := by
        simp [hc.1, hc.2]
      split
      · next he => exact ih _ (by omega) (agree_add.mpr ⟨ha, agree_one.mpr (heq.mp he)⟩) rfl
      · next he => exact Gives.pure ⟨ha, fun hk => he (heq.mpr hk)⟩
    · next hc =>
      refine Gives.pure ⟨ha, fun he => hc ?_⟩
      obtain ⟨hpl, hql⟩ := ha.both_add_le hn hp hq
      have hl : p + h < keys.size ∨ q + h < keys.size := by omega
      rcases hl with hl | hl
      · rw [Array.getElem?_eq_getElem hl] at he
        exact ⟨hl, (Array.getElem?_eq_some_iff.mp he.symm).1⟩
      · rw [Array.getElem?_eq_getElem hl] at he
        exact ⟨(Array.getElem?_eq_some_iff.mp he).1, hl⟩

structure Sorts (starts keys : Array ℕ) : Prop where
  perm : Arranges starts keys.size
  sorted : starts.toList.Pairwise (Precedes keys)

namespace Sorts

variable (hs : Sorts starts keys)

include hs

lemma size_starts : starts.size = keys.size := hs.perm.size_eq

lemma unique {starts' : Array ℕ} (hs' : Sorts starts' keys) : starts = starts' := by
  apply Array.toList_inj.mp
  refine (List.Perm.trans hs.perm hs'.perm.symm).eq_of_pairwise ?_ hs.sorted hs'.sorted
  exact fun p q _ _ hpq hqp => absurd hqp hpq.asymm

lemma start_lt (hr : row < keys.size) : starts.getD row 0 < keys.size := hs.perm.lt hr

lemma exists_row (hp : p < keys.size) : ∃ row < keys.size, starts.getD row 0 = p := hs.perm.exists_row hp

lemma start_inj {row' : ℕ} (hr : row < keys.size) (hr' : row' < keys.size)
    (he : starts.getD row 0 = starts.getD row' 0) : row = row' :=
  hs.perm.inj hr hr' he

lemma start_precedes {row' : ℕ} (hlt : row < row') (hr : row' < keys.size) :
    Precedes keys (starts.getD row 0) (starts.getD row' 0) :=
  hs.perm.pairwise_iff.mp hs.sorted row row' hlt hr

lemma not_below {k row' : ℕ} (hle : row ≤ row') (hr : row' < keys.size) :
    ¬ Below keys k (starts.getD row' 0) (starts.getD row 0) := by
  intro hb
  rcases Nat.lt_or_eq_of_le hle with h | rfl
  · exact hb.precedes.asymm (hs.start_precedes h hr)
  · exact below_irrefl hb

end Sorts

/-! ### The rows of positions -/

structure Locates (rows starts keys : Array ℕ) : Prop where
  size : rows.size = keys.size
  row_start : ∀ row < keys.size, rows.getD (starts.getD row 0) 0 = row

lemma rowsM_gives (hs : Sorts starts keys) : Gives (rowsM starts : m _) fun rows => Locates rows starts keys := by
  have hsize := hs.size_starts
  rw [rowsM, hsize]
  have hrun := Gives.foldlM_range (m := m) (n := keys.size) (b := Array.replicate keys.size 0)
    (f := fun rows row => do write rows (← read starts row) row)
    (I := fun n rows => rows.size = keys.size ∧ ∀ row < n, rows.getD (starts.getD row 0) 0 = row)
    ⟨Array.size_replicate .., by simp⟩ (by
      rintro row rows hr ⟨hn, hrows⟩
      have hlt : starts.getD row 0 < rows.size := hn ▸ hs.start_lt hr
      rw [read_eq (hsize ▸ hr), pure_bind, write_eq hlt]
      refine Gives.pure ⟨by simpa using hn, fun row' hr' => ?_⟩
      rw [getD_setIfInBounds hlt]
      split
      · next he => exact hs.start_inj hr (by omega) he
      · next he =>
        apply hrows row'
        rcases Nat.lt_or_eq_of_le (Nat.le_of_lt_succ hr') with hlt' | rfl
        · exact hlt'
        · exact absurd rfl he)
  exact hrun.imp fun rows hr => ⟨hr.1, hr.2⟩

namespace Locates

variable (hr : Locates rows starts keys) (hs : Sorts starts keys)

include hr hs

lemma row_lt (hp : p < keys.size) : rows.getD p 0 < keys.size := by
  obtain ⟨row, hrow, rfl⟩ := hs.exists_row hp
  rwa [hr.row_start row hrow]

lemma start_row (hp : p < keys.size) : starts.getD (rows.getD p 0) 0 = p := by
  obtain ⟨row, hrow, rfl⟩ := hs.exists_row hp
  rw [hr.row_start row hrow]

/-- A suffix shares at most one element less with its predecessor than the suffix at the position
before does: the predecessor of that one, without its first element, is not behind its own. -/
lemma agree_succ {row' : ℕ} (hp : p + 1 < keys.size) (hrow : rows.getD p 0 = row + 1)
    (hrow' : rows.getD (p + 1) 0 = row' + 1) (ha : Agree keys h p (starts.getD row 0)) :
    Agree keys (h - 1) (p + 1) (starts.getD row' 0) := by
  rcases Nat.lt_or_ge h 2 with hh | hh
  · rw [Nat.sub_eq_zero_of_le (by omega)]
    exact agree_zero
  have hlt : row + 1 < keys.size := hrow ▸ hr.row_lt hs (by omega)
  have hlt' : row' + 1 < keys.size := hrow' ▸ hr.row_lt hs hp
  have hstart : starts.getD (row + 1) 0 = p := hrow ▸ hr.start_row hs (by omega)
  have hstart' : starts.getD (row' + 1) 0 = p + 1 := hrow' ▸ hr.start_row hs hp
  have hq : starts.getD row 0 < keys.size := hs.start_lt (by omega)
  have hqp : Precedes keys (starts.getD row 0) p := hstart ▸ hs.start_precedes (Nat.lt_succ_self row) hlt
  obtain ⟨hfirst, hrest⟩ := agree_add.mp (Nat.add_sub_cancel' (by omega : 1 ≤ h) ▸ ha)
  have hq1 : starts.getD row 0 + 1 < keys.size := by
    have hne : p ≠ starts.getD row 0 := fun he => below_irrefl (he ▸ hqp)
    have := ha.both_add_le hne (by omega) hq.le
    omega
  obtain ⟨next, hnext, he⟩ := hs.exists_row hq1
  have hle : next ≤ row' := by
    by_contra hgt
    have hbehind : ¬ Below keys keys.size (starts.getD next 0) (starts.getD (row' + 1) 0) :=
      hs.not_below (by omega) hnext
    rw [he, hstart'] at hbehind
    exact hbehind (hqp.succ (agree_one.mp hfirst.symm))
  rw [← he] at hrest
  have hbefore : ¬ Below keys (h - 1) (starts.getD row' 0) (starts.getD next 0) := hs.not_below hle (by omega)
  have hafter : ¬ Below keys (h - 1) (starts.getD (row' + 1) 0) (starts.getD row' 0) :=
    hs.not_below (Nat.le_succ row') hlt'
  rw [hstart'] at hafter
  exact hrest.trans (hrest.symm.of_between hbefore hafter)

end Locates

/-! ### Shared lengths, position by position -/

/-- What is known once all positions before `p` are dealt with. -/
structure Sharing.Valid (keys starts rows : Array ℕ) (p : ℕ) (s : Sharing) : Prop where
  size : s.shared.size = keys.size
  first : s.shared.getD 0 0 = 0
  isShared : ∀ q < p, ∀ row, rows.getD q 0 = row + 1 →
    IsShared keys q (starts.getD row 0) (s.shared.getD (row + 1) 0)
  least : p < keys.size → ∀ row, rows.getD p 0 = row + 1 → Agree keys s.least p (starts.getD row 0)

lemma Sharing.valid_zero (keys starts rows : Array ℕ) :
    Valid keys starts rows 0 ⟨Array.replicate keys.size 0, 0⟩ where
  size := by simp
  first := by simp [Array.getElem?_replicate, apply_ite (Option.getD · 0)]
  isShared := by simp
  least := fun _ _ _ => agree_zero

lemma Sharing.Valid.addM {s : Sharing} (h : s.Valid keys starts rows p) (hs : Sorts starts keys)
    (hr : Locates rows starts keys) (hp : p < keys.size) :
    Gives (s.addM keys starts rows p : m Sharing) (Valid keys starts rows (p + 1)) := by
  rw [Sharing.addM, read_eq (hr.size ▸ hp), pure_bind]
  cases hrow : rows.getD p 0 with
  | zero =>
    refine Gives.pure ⟨h.size, h.first, fun q hq row hrow' => ?_, fun _ _ _ => agree_zero⟩
    rcases Nat.lt_succ_iff_lt_or_eq.mp hq with hq | rfl
    · exact h.isShared q hq row hrow'
    · omega
  | succ row =>
    have hlt : row + 1 < keys.size := hrow ▸ hr.row_lt hs hp
    have hq := hs.start_lt (Nat.lt_of_succ_lt hlt)
    have hne : p ≠ starts.getD row 0 := by
      intro he
      have hself := hr.row_start row (Nat.lt_of_succ_lt hlt)
      rw [← he] at hself
      omega
    dsimp only
    rw [read_eq (by have := hs.size_starts; omega), pure_bind]
    apply (commonLengthM_gives (h.least hp row hrow) hne hp.le hq.le).bind
    intro l hl
    have hshared : row + 1 < s.shared.size := h.size ▸ hlt
    rw [write_eq hshared, pure_bind]
    refine Gives.pure ⟨by simpa using h.size, ?_, fun q hq row' hrow' => ?_, fun hp' row' hrow' => ?_⟩
    · rw [getD_setIfInBounds hshared, if_neg (Nat.succ_ne_zero row)]
      exact h.first
    · rw [getD_setIfInBounds hshared]
      rcases Nat.lt_succ_iff_lt_or_eq.mp hq with hq | rfl
      · rw [if_neg]
        · exact h.isShared q hq row' hrow'
        · intro he
          have hstart := hr.start_row hs hp
          have hstart' := hr.start_row hs (hq.trans hp)
          rw [hrow, he, ← hrow', hstart'] at hstart
          omega
      · obtain rfl : row = row' := by omega
        rwa [if_pos rfl]
    · exact hr.agree_succ hs hp' hrow hrow' hl.agree

/-- The rows are all suffixes in order, each with the number of elements it shares with the row before. -/
structure Indexes (index : SuffixIndex) (keys : Array ℕ) : Prop extends Sorts index.starts keys where
  size : index.shared.size = keys.size
  first : index.shared.getD 0 0 = 0
  isShared : ∀ row, row + 1 < keys.size →
    IsShared keys (index.starts.getD row 0) (index.starts.getD (row + 1) 0) (index.shared.getD (row + 1) 0)

lemma buildM_gives (keys : Array ℕ) : Gives (buildM keys : m SuffixIndex) fun index => index.Indexes keys := by
  rw [buildM]
  apply (orderM_gives keys).bind
  rintro starts ⟨hperm, hsorted⟩
  have hs : Sorts starts keys := ⟨hperm, hsorted⟩
  rw [sharedM, hs.size_starts, bind_assoc]
  apply (rowsM_gives hs).bind
  intro rows hr
  rw [bind_assoc]
  apply (Gives.foldlM_range (Sharing.valid_zero keys starts rows) fun p s hp h => h.addM hs hr hp).bind
  intro s h
  rw [pure_bind]
  refine Gives.pure ⟨hs, h.size, h.first, fun row hrow => ?_⟩
  exact (h.isShared _ (hs.start_lt hrow) row (hr.row_start _ hrow)).symm

lemma build_indexes (keys : Array ℕ) : (build keys).Indexes keys := by
  obtain ⟨index, hrun, hi⟩ := buildM_gives (m := Id) keys
  have he : build keys = index := hrun
  exact he ▸ hi

lemma drop_lt_drop {i : ℕ} (ha : Agree keys i p q)
    (hw : weight keys (p + i) < weight keys (q + i)) : keys.toList.drop p < keys.toList.drop q := by
  induction i generalizing p q with
  | zero =>
    have hq : q < keys.toList.length := lt_size_of_weight_pos (Nat.zero_lt_of_lt hw)
    rw [List.drop_eq_getElem_cons hq]
    rcases Nat.lt_or_ge p keys.toList.length with hp | hp
    · rw [List.drop_eq_getElem_cons hp, List.cons_lt_cons_iff]
      exact Or.inl (by simpa [weight, show p < keys.size from hp, show q < keys.size from hq] using hw)
    · rw [List.drop_eq_nil_of_le hp]
      exact List.nil_lt_cons _ _
  | succ i ih =>
    have hq : q < keys.toList.length := by
      have := lt_size_of_weight_pos (Nat.zero_lt_of_lt hw)
      simp only [Array.length_toList]
      omega
    obtain ⟨hone, hrest⟩ := agree_add.mp (Nat.add_comm i 1 ▸ ha)
    have he : keys.toList[p]? = some keys.toList[q] := by
      rw [← List.getElem?_eq_getElem hq, Array.getElem?_toList, Array.getElem?_toList, agree_one.mp hone]
    obtain ⟨hp, he⟩ := List.getElem?_eq_some_iff.mp he
    rw [List.drop_eq_getElem_cons hp, List.drop_eq_getElem_cons hq, he, List.cons_lt_cons_iff]
    refine Or.inr ⟨rfl, ih hrest ?_⟩
    rwa [Nat.add_assoc, Nat.add_assoc, Nat.add_comm 1 i]

lemma Precedes.drop_lt (hp : Precedes keys p q) : keys.toList.drop p < keys.toList.drop q := by
  obtain ⟨i, _, ha, hw⟩ := hp
  exact drop_lt_drop ha hw

lemma IsShared.commonBeginning_eq (hs : IsShared keys p q h) (hne : p ≠ q) (hp : p ≤ keys.size)
    (hq : q ≤ keys.size) : commonBeginning (keys.toList.drop p) (keys.toList.drop q) = h := by
  obtain ⟨hpl, hql⟩ := hs.agree.both_add_le hne hp hq
  refine CodeClones.commonBeginning_eq ?_ ?_ (fun i hi => ?_) ?_
  · simp only [List.length_drop, Array.length_toList]
    omega
  · simp only [List.length_drop, Array.length_toList]
    omega
  · simpa only [List.getElem?_drop, Array.getElem?_toList] using hs.agree i hi
  · simpa only [List.getElem?_drop, Array.getElem?_toList] using hs.differ

lemma orderFrom_eq {order : Array ℕ} (hn : 0 < keys.size) (hp : order.toList.Perm (List.range keys.size))
    (hs : order.toList.Pairwise fun p q => keys.getD p 0 ≤ keys.getD q 0) :
    orderFrom keys order = (build keys).starts := by
  have hfirst : order.toList.Pairwise fun p q => ¬ Below keys 1 q p := by
    apply hs.imp_of_mem
    intro p q hpm hqm hle
    exact not_below_one (List.mem_range.mp (hp.mem_iff.mp hpm)) (List.mem_range.mp (hp.mem_iff.mp hqm)) hle
  obtain ⟨starts, hrun, hperm, hsorted⟩ := orderFromM_gives (m := Id) hn hp hfirst
  have he : orderFrom keys order = starts := hrun
  have hs : Sorts starts keys := ⟨hperm, hsorted⟩
  rw [he, hs.unique (build_indexes keys).toSorts]

/-- The index of any sequence lists each suffix once, in strictly ascending order, and counts what each
shares with the one before it. Suffixes with equal first elements may come in any order at first. -/
theorem build_sorted_and_shared (keys : Array ℕ) :
    (build keys).starts.toList.Perm (List.range keys.size) ∧
    (build keys).starts.toList.Pairwise (fun p q => keys.toList.drop p < keys.toList.drop q) ∧
    (build keys).shared.size = keys.size ∧
    (keys ≠ #[] → (build keys).shared[0]? = some 0) ∧
    (∀ row, row + 1 < keys.size → ∃ p q, (build keys).starts[row]? = some p ∧
      (build keys).starts[row + 1]? = some q ∧
      (build keys).shared[row + 1]? =
        some (commonBeginning (keys.toList.drop p) (keys.toList.drop q))) ∧
    ∀ order : Array ℕ, keys ≠ #[] → order.toList.Perm (List.range keys.size) →
      (order.toList.Pairwise fun p q => keys.getD p 0 ≤ keys.getD q 0) →
        orderFrom keys order = (build keys).starts := by
  have hi := build_indexes keys
  have hs : (build keys).starts.size = keys.size := by
    simpa using hi.perm.length_eq
  refine ⟨hi.perm, hi.sorted.imp Precedes.drop_lt, hi.size, fun hn => ?_, fun row hrow => ?_, fun order hn =>
    orderFrom_eq (Array.size_pos_iff.mpr hn)⟩
  · have h0 : 0 < (build keys).shared.size := hi.size ▸ Array.size_pos_iff.mpr hn
    have hf := hi.first
    simp only [Array.getD_eq_getD_getElem?, Array.getElem?_eq_getElem h0, Option.getD_some] at hf
    rw [Array.getElem?_eq_getElem h0, hf]
  · have hp : row < (build keys).starts.size := by omega
    have hq : row + 1 < (build keys).starts.size := by omega
    have hl : row + 1 < (build keys).shared.size := hi.size.symm ▸ hrow
    refine ⟨_, _, Array.getElem?_eq_getElem hp, Array.getElem?_eq_getElem hq, ?_⟩
    have hsh := hi.isShared row hrow
    simp only [Array.getD_eq_getD_getElem?, Array.getElem?_eq_getElem hp, Array.getElem?_eq_getElem hq,
      Array.getElem?_eq_getElem hl, Option.getD_some] at hsh
    have hm : ∀ i (h : i < (build keys).starts.size), (build keys).starts[i] < keys.size := fun i h =>
      List.mem_range.mp (hi.perm.mem_iff.mp (Array.getElem_mem_toList h))
    have hne : (build keys).starts[row] ≠ (build keys).starts[row + 1] := by
      intro he
      exact hsh.differ (by rw [he])
    rw [Array.getElem?_eq_getElem hl, hsh.commonBeginning_eq hne (hm _ hp).le (hm _ hq).le]

end CodeClones.SuffixIndex
