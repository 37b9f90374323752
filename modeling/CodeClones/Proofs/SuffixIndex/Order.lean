import Mathlib.Data.List.Sort
import Mathlib.Tactic.Common
import CodeClones.SuffixIndex

/-! The order of the suffixes of a sequence, told by the elements behind two positions. -/

namespace CodeClones.SuffixIndex

variable {keys : Array ℕ} {k m p q r : ℕ}

def Agree (keys : Array ℕ) (k p q : ℕ) : Prop := ∀ i < k, keys[p + i]? = keys[q + i]?

instance : Decidable (Agree keys k p q) := inferInstanceAs (Decidable (∀ i < k, _))

lemma Agree.refl (keys : Array ℕ) (k p : ℕ) : Agree keys k p p := fun _ _ => rfl

lemma Agree.symm (h : Agree keys k p q) : Agree keys k q p := fun i hi => (h i hi).symm

lemma Agree.trans (h : Agree keys k p q) (h' : Agree keys k q r) : Agree keys k p r :=
  fun i hi => (h i hi).trans (h' i hi)

lemma Agree.mono (h : Agree keys k p q) (hm : m ≤ k) : Agree keys m p q :=
  fun i hi => h i (hi.trans_le hm)

lemma agree_zero : Agree keys 0 p q := fun i hi => absurd hi (Nat.not_lt_zero i)

lemma agree_add : Agree keys (k + m) p q ↔ Agree keys k p q ∧ Agree keys m (p + k) (q + k) := by
  refine ⟨fun h => ⟨h.mono (by omega), fun i hi => ?_⟩, fun ⟨h, h'⟩ i hi => ?_⟩
  · simpa only [Nat.add_assoc] using h (k + i) (by omega)
  · rcases Nat.lt_or_ge i k with hk | hk
    · exact h i hk
    · have hh := h' (i - k) (by omega)
      rwa [Nat.add_assoc, Nat.add_assoc, Nat.add_sub_cancel' hk] at hh

lemma agree_one : Agree keys 1 p q ↔ keys[p]? = keys[q]? := by
  simp [Agree]

lemma Agree.add_le (h : Agree keys k p q) (hn : p < q) (hq : q ≤ keys.size) : q + k ≤ keys.size := by
  by_contra hk
  have he := h (keys.size - q) (by omega)
  rw [Array.getElem?_eq_getElem (by omega : p + (keys.size - q) < keys.size),
    Array.getElem?_eq_none (by omega)] at he
  exact Option.some_ne_none _ he

lemma Agree.both_add_le (h : Agree keys k p q) (hn : p ≠ q) (hp : p ≤ keys.size) (hq : q ≤ keys.size) :
    p + k ≤ keys.size ∧ q + k ≤ keys.size := by
  rcases Nat.lt_or_gt_of_ne hn with hl | hl
  · have := h.add_le hl hq
    omega
  · have := h.symm.add_le hl hp
    omega

/-- A number for the element at a position; the end of the sequence comes before every element. -/
def weight (keys : Array ℕ) (p : ℕ) : ℕ := keys[p]?.elim 0 (· + 1)

lemma weight_inj : weight keys p = weight keys q ↔ keys[p]? = keys[q]? := by
  unfold weight
  cases keys[p]? <;> cases keys[q]? <;> simp

lemma lt_size_of_weight_pos (h : 0 < weight keys p) : p < keys.size := by
  by_contra hp
  rw [weight, Array.getElem?_eq_none (by omega)] at h
  exact Nat.lt_irrefl 0 h

def Below (keys : Array ℕ) (k p q : ℕ) : Prop :=
  ∃ i < k, Agree keys i p q ∧ weight keys (p + i) < weight keys (q + i)

lemma Below.mono (h : Below keys k p q) (hm : k ≤ m) : Below keys m p q := by
  obtain ⟨i, hi, ha, hw⟩ := h
  exact ⟨i, hi.trans_le hm, ha, hw⟩

lemma Below.not_agree (h : Below keys k p q) : ¬ Agree keys k p q := by
  obtain ⟨i, hi, _, hw⟩ := h
  intro ha
  exact Nat.ne_of_lt hw (weight_inj.mpr (ha i hi))

lemma below_trichotomy (keys : Array ℕ) (k p q : ℕ) :
    Below keys k p q ∨ Agree keys k p q ∨ Below keys k q p := by
  induction k with
  | zero => exact Or.inr (Or.inl agree_zero)
  | succ k ih =>
    rcases ih with h | h | h
    · exact Or.inl (h.mono (by omega))
    · rcases Nat.lt_trichotomy (weight keys (p + k)) (weight keys (q + k)) with hw | hw | hw
      · exact Or.inl ⟨k, by omega, h, hw⟩
      · exact Or.inr (Or.inl (agree_add.mpr ⟨h, agree_one.mpr (weight_inj.mp hw)⟩))
      · exact Or.inr (Or.inr ⟨k, by omega, h.symm, hw⟩)
    · exact Or.inr (Or.inr (h.mono (by omega)))

lemma below_irrefl : ¬ Below keys k p p := fun h => h.not_agree (Agree.refl keys k p)

lemma Below.trans (h : Below keys k p q) (h' : Below keys k q r) : Below keys k p r := by
  obtain ⟨i, hi, ha, hw⟩ := h
  obtain ⟨j, hj, hb, hv⟩ := h'
  rcases Nat.lt_trichotomy i j with hij | rfl | hij
  · exact ⟨i, hi, ha.trans (hb.mono hij.le), by rwa [← weight_inj.mpr (hb i hij)]⟩
  · exact ⟨i, hi, ha.trans hb, hw.trans hv⟩
  · exact ⟨j, hj, (ha.mono hij.le).trans hb, by rwa [weight_inj.mpr (ha j hij)]⟩

lemma Below.asymm (h : Below keys k p q) : ¬ Below keys k q p := fun h' => below_irrefl (h.trans h')

lemma Below.of_agree_right (h : Below keys k p q) (ha : Agree keys k q r) : Below keys k p r := by
  obtain ⟨i, hi, hb, hw⟩ := h
  exact ⟨i, hi, hb.trans (ha.mono hi.le), by rwa [← weight_inj.mpr (ha i hi)]⟩

lemma Below.cases (h : Below keys k p r) (q : ℕ) : Below keys k p q ∨ Below keys k q r := by
  rcases below_trichotomy keys k q r with hb | ha | hb
  · exact Or.inr hb
  · exact Or.inl (h.of_agree_right ha.symm)
  · exact Or.inl (h.trans hb)

lemma Agree.of_between (h : Agree keys k p r) (hpq : ¬ Below keys k q p) (hqr : ¬ Below keys k r q) :
    Agree keys k p q := by
  rcases below_trichotomy keys k p q with hb | ha | hb
  · rcases below_trichotomy keys k q r with hc | hc | hc
    · exact absurd ((hb.trans hc).of_agree_right h.symm) below_irrefl
    · exact absurd ((hb.of_agree_right hc).of_agree_right h.symm) below_irrefl
    · exact absurd hc hqr
  · exact ha
  · exact absurd hb hpq

lemma below_add : Below keys (k + m) p q ↔
    Below keys k p q ∨ Agree keys k p q ∧ Below keys m (p + k) (q + k) := by
  constructor
  · rintro ⟨i, hi, ha, hw⟩
    rcases Nat.lt_or_ge i k with hk | hk
    · exact Or.inl ⟨i, hk, ha, hw⟩
    · obtain ⟨j, rfl⟩ := Nat.exists_eq_add_of_le hk
      obtain ⟨hl, hr⟩ := agree_add.mp ha
      exact Or.inr ⟨hl, j, by omega, hr, by rwa [Nat.add_assoc, Nat.add_assoc]⟩
  · rintro (h | ⟨ha, i, hi, hb, hw⟩)
    · exact h.mono (by omega)
    · exact ⟨k + i, by omega, agree_add.mpr ⟨ha, hb⟩, by rwa [← Nat.add_assoc, ← Nat.add_assoc]⟩

lemma below_one : Below keys 1 p q ↔ weight keys p < weight keys q := by
  constructor
  · rintro ⟨i, hi, _, hw⟩
    obtain rfl : i = 0 := by omega
    exact hw
  · exact fun hw => ⟨0, by omega, agree_zero, hw⟩

def Precedes (keys : Array ℕ) (p q : ℕ) : Prop := Below keys keys.size p q

lemma not_below_of_size_le (h : keys.size ≤ q) : ¬ Below keys k p q := by
  rintro ⟨i, _, _, hw⟩
  have := lt_size_of_weight_pos (Nat.zero_lt_of_lt hw)
  omega

lemma Below.precedes (h : Below keys k p q) : Precedes keys p q := by
  obtain ⟨i, _, ha, hw⟩ := h
  have := lt_size_of_weight_pos (Nat.zero_lt_of_lt hw)
  exact ⟨i, by omega, ha, hw⟩

lemma not_agree_of_ne (hn : p ≠ q) (hp : p < keys.size) (hq : q < keys.size) :
    ¬ Agree keys keys.size p q := by
  intro h
  have := h.both_add_le hn hp.le hq.le
  omega

lemma Precedes.succ (h : Precedes keys p q) (ha : keys[p]? = keys[q]?) :
    Precedes keys (p + 1) (q + 1) := by
  obtain ⟨i, _, hb, hw⟩ := h
  cases i with
  | zero => exact absurd (weight_inj.mpr ha) (Nat.ne_of_lt hw)
  | succ i =>
    refine Below.precedes (k := i + 1) ⟨i, by omega, ?_, ?_⟩
    · exact (agree_add.mp (Nat.add_comm i 1 ▸ hb)).2
    · rwa [Nat.add_assoc, Nat.add_assoc, Nat.add_comm 1 i]

end CodeClones.SuffixIndex
