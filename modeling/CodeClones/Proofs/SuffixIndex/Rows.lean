import CodeClones.Proofs.SuffixIndex.Sharing

/-! Which rows of a suffix index agree in a number of elements. -/

namespace CodeClones.SuffixIndex

namespace Indexes

variable {index : SuffixIndex} {keys : Array ℕ} {a b k p row row' : ℕ}

lemma agree_pred_iff (hi : index.Indexes keys) (hr : row + 1 < keys.size) :
    Agree keys k (index.starts.getD row 0) (index.starts.getD (row + 1) 0) ↔
      k ≤ index.shared.getD (row + 1) 0 :=
  (hi.isShared row hr).agree_iff

lemma agree_iff (hi : index.Indexes keys) (hab : a ≤ b) (hb : b < keys.size) :
    Agree keys k (index.starts.getD a 0) (index.starts.getD b 0) ↔
      ∀ row, a < row → row ≤ b → k ≤ index.shared.getD row 0 := by
  constructor
  · intro h row har hrb
    obtain ⟨r, rfl⟩ := Nat.exists_eq_succ_of_ne_zero (Nat.ne_zero_of_lt har)
    have hl := h.of_between (hi.not_below (Nat.lt_succ_iff.mp har) (by omega)) (hi.not_below (by omega) hb)
    have hr := h.of_between (hi.not_below har.le (by omega)) (hi.not_below hrb hb)
    exact (hi.agree_pred_iff (by omega)).mp (hl.symm.trans hr)
  · intro h
    induction b, hab using Nat.le_induction with
    | base => exact Agree.refl keys k _
    | succ b hab ih =>
      have ha := ih (by omega) fun row har hrb => h row har (by omega)
      exact ha.trans ((hi.agree_pred_iff hb).mpr (h (b + 1) (by omega) le_rfl))

lemma unique {index' : SuffixIndex} (hi : index.Indexes keys) (hi' : index'.Indexes keys) : index = index' := by
  have hstarts : index.starts = index'.starts := hi.toSorts.unique hi'.toSorts
  have hshared : index.shared = index'.shared := by
    apply Array.ext (hi.size.trans hi'.size.symm)
    intro row hr hr'
    have hget : index.shared.getD row 0 = index'.shared.getD row 0 := by
      cases row with
      | zero => rw [hi.first, hi'.first]
      | succ row =>
        have hl := hi.isShared row (hi.size ▸ hr)
        have hl' := hi'.isShared row (hi.size ▸ hr)
        rw [← hstarts] at hl'
        exact Nat.le_antisymm (hl'.agree_iff.mp hl.agree) (hl.agree_iff.mp hl'.agree)
    simpa [hr, hr'] using hget
  cases index
  cases index'
  simp_all

end Indexes

lemma buildM_eq {m : Type → Type} [Monad m] [LawfulMonad m] [Access m] (keys : Array ℕ) :
    (buildM keys : m SuffixIndex) = pure (build keys) := by
  obtain ⟨index, hrun, hi⟩ := buildM_gives (m := m) keys
  rw [hrun, hi.unique (build_indexes keys)]

end CodeClones.SuffixIndex
