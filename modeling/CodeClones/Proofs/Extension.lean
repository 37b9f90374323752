import CodeClones.Proofs.CommonBeginning
import CodeClones.Token

/-! Equal runs made as long as they can be. -/

namespace CodeClones

/-- Two equal runs made as long as they can be, token by token to the left and to the right: where they start
and how long they are. -/
def extension (s t : List Key) (i j : ℕ) : ℕ × ℕ × ℕ :=
  let back := commonBeginning (s.take i).reverse (t.take j).reverse
  (i - back, j - back, back + commonBeginning (s.drop i) (t.drop j))

structure IsExtended (s t : List Key) (i j length : ℕ) : Prop where
  room : i + length ≤ s.length
  room' : j + length ≤ t.length
  agree : ∀ n < length, s[i + n]? = t[j + n]?
  before : 0 < i → 0 < j → s[i - 1]? ≠ t[j - 1]?
  behind : i + length < s.length → j + length < t.length → s[i + length]? ≠ t[j + length]?

variable {s t : List Key} {i j length m n : ℕ}

lemma IsExtended.symm (h : IsExtended s t i j length) : IsExtended t s j i length :=
  ⟨h.room', h.room, fun n hn => (h.agree n hn).symm, fun hj hi => (h.before hi hj).symm,
    fun hj hi => (h.behind hi hj).symm⟩

lemma getElem?_reverse_take (hi : i ≤ s.length) (hn : n < i) : (s.take i).reverse[n]? = s[i - 1 - n]? := by
  rw [List.getElem?_reverse (by rw [List.length_take]; omega), List.length_take, Nat.min_eq_left hi,
    List.getElem?_take_of_lt (by omega)]

lemma getElem?_eq_of_lt_back (hi : i ≤ s.length) (hj : j ≤ t.length)
    (hn : n < commonBeginning (s.take i).reverse (t.take j).reverse) : s[i - 1 - n]? = t[j - 1 - n]? := by
  have hbi := commonBeginning_le_left (s.take i).reverse (t.take j).reverse
  have hbj := commonBeginning_le_right (s.take i).reverse (t.take j).reverse
  rw [List.length_reverse, List.length_take] at hbi hbj
  rw [← getElem?_reverse_take hi (by omega), ← getElem?_reverse_take hj (by omega)]
  exact getElem?_eq_of_lt_commonBeginning hn

lemma getElem?_eq_of_lt_on (hn : n < commonBeginning (s.drop i) (t.drop j)) : s[i + n]? = t[j + n]? := by
  rw [← List.getElem?_drop, ← List.getElem?_drop]
  exact getElem?_eq_of_lt_commonBeginning hn

lemma isExtended_extension (hi : i ≤ s.length) (hj : j ≤ t.length) :
    IsExtended s t (extension s t i j).1 (extension s t i j).2.1 (extension s t i j).2.2 := by
  have hbi := commonBeginning_le_left (s.take i).reverse (t.take j).reverse
  have hbj := commonBeginning_le_right (s.take i).reverse (t.take j).reverse
  have hoi := commonBeginning_le_left (s.drop i) (t.drop j)
  have hoj := commonBeginning_le_right (s.drop i) (t.drop j)
  have hback := fun n => @getElem?_eq_of_lt_back s t i j n hi hj
  have hon := fun n => @getElem?_eq_of_lt_on s t i j n
  have hstart := @getElem?_commonBeginning_ne _ _ (s.take i).reverse (t.take j).reverse
  have hstop := @getElem?_commonBeginning_ne _ _ (s.drop i) (t.drop j)
  simp only [extension]
  generalize commonBeginning (s.take i).reverse (t.take j).reverse = back at *
  generalize commonBeginning (s.drop i) (t.drop j) = on at *
  simp only [List.length_reverse, List.length_take, List.length_drop] at hbi hbj hoi hoj hstart hstop
  refine ⟨by omega, by omega, fun n hn => ?_, fun hpi hpj => ?_, fun hli hlj => ?_⟩
  · rcases Nat.lt_or_ge n back with hlt | hge
    · have := hback (back - 1 - n) (by omega)
      rwa [show i - 1 - (back - 1 - n) = i - back + n by omega,
        show j - 1 - (back - 1 - n) = j - back + n by omega] at this
    · have := hon (n - back) (by omega)
      rwa [show i + (n - back) = i - back + n by omega, show j + (n - back) = j - back + n by omega] at this
  · have := hstart (by omega) (by omega)
    rwa [getElem?_reverse_take hi (by omega), getElem?_reverse_take hj (by omega),
      show i - 1 - back = i - back - 1 by omega, show j - 1 - back = j - back - 1 by omega] at this
  · have := hstop (by omega) (by omega)
    rwa [List.getElem?_drop, List.getElem?_drop, show i + on = i - back + (back + on) by omega,
      show j + on = j - back + (back + on) by omega] at this

lemma exists_offset (hi : i + m ≤ s.length) (hj : j + m ≤ t.length) (h : ∀ n < m, s[i + n]? = t[j + n]?) :
    ∃ offset, (extension s t i j).1 + offset = i ∧ (extension s t i j).2.1 + offset = j ∧
      offset + m ≤ (extension s t i j).2.2 := by
  have hbi := commonBeginning_le_left (s.take i).reverse (t.take j).reverse
  have hbj := commonBeginning_le_right (s.take i).reverse (t.take j).reverse
  rw [List.length_reverse, List.length_take] at hbi hbj
  have hm : m ≤ commonBeginning (s.drop i) (t.drop j) := by
    refine le_commonBeginning (by rw [List.length_drop]; omega) (by rw [List.length_drop]; omega) fun n hn => ?_
    rw [List.getElem?_drop, List.getElem?_drop]
    exact h n hn
  refine ⟨commonBeginning (s.take i).reverse (t.take j).reverse, ?_, ?_, ?_⟩ <;> simp only [extension] <;> omega

lemma le_extension (hi : i + m ≤ s.length) (hj : j + m ≤ t.length) (h : ∀ n < m, s[i + n]? = t[j + n]?) :
    m ≤ (extension s t i j).2.2 := by
  obtain ⟨offset, -, -, hle⟩ := exists_offset hi hj h
  omega

lemma lt_extension (hi : i + m ≤ s.length) (hj : j + m ≤ t.length) (h : ∀ n < m, s[i + n]? = t[j + n]?)
    (hno : ¬ IsExtended s t i j m) : m < (extension s t i j).2.2 := by
  obtain ⟨offset, hi', hj', hle⟩ := exists_offset hi hj h
  have hex := isExtended_extension (show i ≤ s.length by omega) (show j ≤ t.length by omega)
  by_contra hlt
  rw [show (extension s t i j).1 = i by omega, show (extension s t i j).2.1 = j by omega,
    show (extension s t i j).2.2 = m by omega] at hex
  exact hno hex

end CodeClones
