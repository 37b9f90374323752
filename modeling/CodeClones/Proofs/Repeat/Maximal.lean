import Mathlib.Data.List.Lex
import CodeClones.Proofs.Repeat.Intervals
import CodeClones.Proofs.SuffixIndex.Rows

/-! The intervals with different elements before them are the maximal repeats. -/

namespace CodeClones.Repeat

open SuffixIndex

variable {keys : Array ℕ} {index : SuffixIndex} {a b p q row shared : ℕ}

/-- All positions of a run that occurs more than once, neither always behind the same element nor always
before the same element. A neighbour that is missing is like no element. -/
structure IsMaximal (keys : Array ℕ) (r : Repeat) : Prop where
  occurs : ∃ run : List ℕ, run.length = r.length ∧ ∀ p, p ∈ r.positions ↔ run <+: keys.toList.drop p
  sorted : r.positions.Pairwise (· < ·)
  several : 2 ≤ r.positions.length
  before : ¬ ∃ key, ∀ p ∈ r.positions, 0 < p ∧ keys[p - 1]? = some key
  behind : ¬ ∃ key, ∀ p ∈ r.positions, keys[p + r.length]? = some key

lemma prefix_drop_iff {run : List ℕ} (hr : 0 < run.length) :
    run <+: keys.toList.drop p ↔
      p + run.length ≤ keys.size ∧ ∀ i < run.length, keys[p + i]? = run[i]? := by
  rw [List.prefix_iff_getElem?]
  simp only [List.getElem?_drop, Array.getElem?_toList]
  constructor
  · intro h
    refine ⟨?_, fun i hi => by rw [h i hi, List.getElem?_eq_getElem hi]⟩
    obtain ⟨hl, -⟩ := Array.getElem?_eq_some_iff.mp (h (run.length - 1) (by omega))
    omega
  · intro h i hi
    rw [h.2 i hi, List.getElem?_eq_getElem hi]

lemma occurs_iff {positions : List ℕ} {length : ℕ} (hl : 0 < length) (hq : q ∈ positions) :
    (∃ run : List ℕ, run.length = length ∧ ∀ p, p ∈ positions ↔ run <+: keys.toList.drop p) ↔
      ∀ p, p ∈ positions ↔ p + length ≤ keys.size ∧ Agree keys length q p := by
  constructor
  · rintro ⟨run, rfl, h⟩ p
    obtain ⟨-, hrun⟩ := (prefix_drop_iff hl).mp ((h q).mp hq)
    rw [h, prefix_drop_iff hl]
    refine and_congr_right fun _ => ⟨fun hp i hi => (hrun i hi).trans (hp i hi).symm, fun hp i hi => ?_⟩
    exact (hp i hi).symm.trans (hrun i hi)
  · intro h
    obtain ⟨hqn, -⟩ := (h q).mp hq
    have hlen : ((keys.toList.drop q).take length).length = length := by
      rw [List.length_take, List.length_drop, Array.length_toList]
      omega
    refine ⟨(keys.toList.drop q).take length, hlen, fun p => ?_⟩
    rw [h, prefix_drop_iff (hlen.symm ▸ hl), hlen]
    refine and_congr_right fun _ => forall₂_congr fun i hi => ?_
    rw [List.getElem?_take_of_lt hi, List.getElem?_drop, Array.getElem?_toList]
    exact eq_comm

lemma IsMaximal.exists_ne {r : Repeat} (h : IsMaximal keys r) (p : ℕ) : ∃ q ∈ r.positions, p ≠ q := by
  obtain ⟨a, ha, b, hb, hab⟩ := (two_le_length_iff (h.sorted.imp Nat.ne_of_lt)).mp h.several
  by_cases hpa : p = a
  · exact ⟨b, hb, hpa ▸ hab⟩
  · exact ⟨a, ha, hpa⟩

/-- Rows that share at least `shared` elements, while the rows around them share fewer with them. -/
structure IsBlock (index : SuffixIndex) (shared a b : ℕ) : Prop where
  pos : 0 < shared
  lt : a < b
  le : b ≤ index.shared.size
  before : index.shared.getD a 0 < shared
  inside : ∀ row, a < row → row < b → shared ≤ index.shared.getD row 0
  behind : index.shared.getD b 0 < shared

lemma IsInterval.isBlock (h : IsInterval index shared a b) : IsBlock index shared a b := by
  obtain ⟨row, ha, hb, -⟩ := h.attained
  exact ⟨h.pos, ha.trans hb, h.stop_le, h.before, h.inside, h.behind⟩

lemma exists_block (h0 : index.shared.getD 0 0 = 0) (hpos : 0 < shared) (hr : row < index.shared.size) :
    ∃ a b, a ≤ row ∧ row < b ∧ IsBlock index shared a b := by
  classical
  have hend : index.shared.getD index.shared.size 0 < shared := by simpa using hpos
  have hA : ∃ a, a ≤ row ∧ ∀ i, a < i → i ≤ row → shared ≤ index.shared.getD i 0 :=
    ⟨row, le_rfl, fun i hi hi' => by omega⟩
  have hB : ∃ b, row < b ∧ index.shared.getD b 0 < shared := ⟨_, hr, hend⟩
  obtain ⟨ha, hai⟩ := Nat.find_spec hA
  obtain ⟨hb, hbs⟩ := Nat.find_spec hB
  refine ⟨Nat.find hA, Nat.find hB, ha, hb, hpos, ha.trans_lt hb, Nat.find_min' hB ⟨hr, hend⟩, ?_, ?_, hbs⟩
  · by_contra hge
    rcases Nat.eq_zero_or_pos (Nat.find hA) with hz | hp
    · rw [hz, h0] at hge
      exact hge hpos
    · refine Nat.find_min hA (Nat.sub_one_lt_of_lt hp) ⟨by omega, fun i hi hi' => ?_⟩
      rcases Nat.lt_or_eq_of_le (by omega : Nat.find hA ≤ i) with hlt | he
      · exact hai i hlt hi'
      · rw [← he]
        exact not_lt.mp hge
  · intro i hi hi'
    rcases Nat.lt_or_ge row i with hri | hri
    · by_contra hs
      exact Nat.find_min hB hi' ⟨hri, not_le.mp hs⟩
    · exact hai i hi hri

lemma IsBlock.mem_iff (h : IsBlock index shared a b) (hi : index.Indexes keys) {row' : ℕ} (ha : a ≤ row)
    (hb : row < b) (hr : row' < keys.size) :
    a ≤ row' ∧ row' < b ↔ Agree keys shared (index.starts.getD row 0) (index.starts.getD row' 0) := by
  have hbn := hi.size ▸ h.le
  constructor
  · rintro ⟨ha', hb'⟩
    rcases Nat.le_total row row' with hle | hle
    · exact (hi.agree_iff hle hr).mpr fun i hi' hi'' => h.inside i (by omega) (by omega)
    · exact ((hi.agree_iff hle (by omega)).mpr fun i hi' hi'' => h.inside i (by omega) (by omega)).symm
  · intro hag
    constructor
    · by_contra hlt
      have := (hi.agree_iff (by omega) (by omega)).mp hag.symm a (by omega) ha
      exact this.not_gt h.before
    · by_contra hlt
      have := (hi.agree_iff (by omega) hr).mp hag b hb (by omega)
      exact this.not_gt h.behind

lemma IsBlock.attained_of (h : IsBlock index shared a b)
    (hn : ¬ ∀ row, a < row → row < b → shared + 1 ≤ index.shared.getD row 0) :
    IsInterval index shared a b := by
  push Not at hn
  obtain ⟨row, ha, hb, hlt⟩ := hn
  have := h.inside row ha hb
  exact ⟨⟨h.pos, h.before, h.inside, row, ha, hb, by omega⟩, h.behind⟩

def positionsOf (index : SuffixIndex) (a b : ℕ) : List ℕ := ((index.starts.extract a b).toList).mergeSort

lemma mem_positionsOf (hb : b ≤ index.starts.size) :
    p ∈ positionsOf index a b ↔ ∃ row, a ≤ row ∧ row < b ∧ index.starts.getD row 0 = p := by
  rw [positionsOf, List.mem_mergeSort, Array.mem_toList_iff, Array.mem_iff_getElem]
  constructor
  · rintro ⟨i, hi, rfl⟩
    rw [Array.size_extract] at hi
    refine ⟨a + i, by omega, by omega, ?_⟩
    simp [show a + i < index.starts.size by omega]
  · rintro ⟨row, ha, hr, rfl⟩
    refine ⟨row - a, by rw [Array.size_extract]; omega, ?_⟩
    simp [show a + (row - a) = row by omega, show row < index.starts.size by omega]

lemma sorted_positionsOf (hi : index.Indexes keys) : (positionsOf index a b).Pairwise (· < ·) := by
  have hn : (positionsOf index a b).Nodup := by
    have hs : index.starts.toList.Nodup := hi.perm.nodup_iff.mpr List.nodup_range
    refine (List.mergeSort_perm _ _).nodup_iff.mpr (hs.sublist ?_)
    rw [Array.toList_extract, List.extract_eq_take_drop]
    exact (List.take_sublist _ _).trans (List.drop_sublist _ _)
  have hle : (positionsOf index a b).Pairwise fun p q => p ≤ q := pairwise_mergeSort_le (fun p => p) _
  exact (hle.and hn).imp fun h => lt_of_le_of_ne h.1 h.2

lemma length_positionsOf (hb : b ≤ index.starts.size) : (positionsOf index a b).length = b - a := by
  rw [positionsOf, List.length_mergeSort, Array.length_toList, Array.size_extract, Nat.min_eq_left hb]

lemma IsBlock.mem_positionsOf_iff (h : IsBlock index shared a b) (hi : index.Indexes keys)
    (hq : q ∈ positionsOf index a b) (hl : q + shared ≤ keys.size) :
    p ∈ positionsOf index a b ↔ p + shared ≤ keys.size ∧ Agree keys shared q p := by
  have hb : b ≤ index.starts.size := by
    rw [hi.size_starts, ← hi.size]
    exact h.le
  obtain ⟨row, har, hrb, rfl⟩ := (mem_positionsOf hb).mp hq
  have hrn : row < keys.size := by
    rw [← hi.size]
    exact hrb.trans_le h.le
  constructor
  · intro hp
    obtain ⟨row', har', hrb', rfl⟩ := (mem_positionsOf hb).mp hp
    have hrn' : row' < keys.size := by
      rw [← hi.size]
      exact hrb'.trans_le h.le
    have hag := (h.mem_iff hi har hrb hrn').mp ⟨har', hrb'⟩
    refine ⟨?_, hag⟩
    by_cases hne : index.starts.getD row 0 = index.starts.getD row' 0
    · rwa [← hne]
    · exact (hag.both_add_le hne (hi.start_lt hrn).le (hi.start_lt hrn').le).2
  · rintro ⟨hpl, hag⟩
    have hpos := h.pos
    obtain ⟨row', hrn', rfl⟩ := hi.exists_row (by omega : p < keys.size)
    obtain ⟨har', hrb'⟩ := (h.mem_iff hi har hrb hrn').mpr hag
    exact (mem_positionsOf hb).mpr ⟨row', har', hrb', rfl⟩

lemma IsBlock.le_starts (h : IsBlock index shared a b) (hi : index.Indexes keys) :
    b ≤ index.starts.size := by
  rw [hi.size_starts, ← hi.size]
  exact h.le

lemma add_le_of_agree {positions : List ℕ} (hs : positions.Pairwise (· < ·)) (h2 : 2 ≤ positions.length)
    (hn : ∀ p ∈ positions, p ≤ keys.size) (ha : ∀ p ∈ positions, ∀ q ∈ positions, Agree keys shared p q)
    (hp : p ∈ positions) : p + shared ≤ keys.size := by
  obtain ⟨x, y, rest, rfl⟩ : ∃ x y rest, positions = x :: y :: rest := by
    match positions, h2 with
    | x :: y :: rest, _ => exact ⟨x, y, rest, rfl⟩
  have hxy : x < y := (List.pairwise_cons.mp hs).1 y (by simp)
  by_cases hpx : p = x
  · have hpy : p ≠ y := by omega
    exact ((ha p hp y (by simp)).both_add_le hpy (hn p hp) (hn y (by simp))).1
  · exact ((ha p hp x (by simp)).both_add_le hpx (hn p hp) (hn x (by simp))).1

lemma IsBlock.positionsOf_le (h : IsBlock index shared a b) (hi : index.Indexes keys)
    (hp : p ∈ positionsOf index a b) : p < keys.size := by
  obtain ⟨row, -, hrb, rfl⟩ := (mem_positionsOf (h.le_starts hi)).mp hp
  exact hi.start_lt (hrb.trans_le (hi.size ▸ h.le))

lemma IsBlock.agree_positionsOf (h : IsBlock index shared a b) (hi : index.Indexes keys)
    (hp : p ∈ positionsOf index a b) (hq : q ∈ positionsOf index a b) : Agree keys shared p q := by
  obtain ⟨row, har, hrb, rfl⟩ := (mem_positionsOf (h.le_starts hi)).mp hp
  obtain ⟨row', har', hrb', rfl⟩ := (mem_positionsOf (h.le_starts hi)).mp hq
  exact (h.mem_iff hi har hrb (hrb'.trans_le (hi.size ▸ h.le))).mp ⟨har', hrb'⟩

lemma IsBlock.behind_iff (h : IsBlock index shared a b) (hi : index.Indexes keys) (h2 : a + 2 ≤ b) :
    (∃ key, ∀ p ∈ positionsOf index a b, keys[p + shared]? = some key) ↔
      ∀ row, a < row → row < b → shared + 1 ≤ index.shared.getD row 0 := by
  have hb := h.le_starts hi
  have hbn := hi.size ▸ h.le
  have hm : ∀ row, a ≤ row → row < b → index.starts.getD row 0 ∈ positionsOf index a b :=
    fun row ha hb' => (mem_positionsOf hb).mpr ⟨row, ha, hb', rfl⟩
  constructor
  · rintro ⟨key, hk⟩ row har hrb
    have hag : Agree keys (shared + 1) (index.starts.getD a 0) (index.starts.getD row 0) := by
      refine agree_add.mpr ⟨h.agree_positionsOf hi (hm a le_rfl h.lt) (hm row har.le hrb), ?_⟩
      rw [agree_one, hk _ (hm a le_rfl h.lt), hk _ (hm row har.le hrb)]
    exact (hi.agree_iff har.le (by omega)).mp hag row har le_rfl
  · intro hall
    have hag : ∀ row, a ≤ row → row < b →
        Agree keys (shared + 1) (index.starts.getD a 0) (index.starts.getD row 0) := fun row ha hb' =>
      (hi.agree_iff ha (by omega)).mpr fun i hi' hi'' => hall i hi' (by omega)
    have hne : index.starts.getD a 0 ≠ index.starts.getD (a + 1) 0 := fun he => by
      have := hi.start_inj (by omega) (by omega) he
      omega
    have hl := ((hag (a + 1) (by omega) (by omega)).both_add_le hne (hi.start_lt (by omega)).le
      (hi.start_lt (by omega)).le).1
    refine ⟨keys[index.starts.getD a 0 + shared], fun p hp => ?_⟩
    obtain ⟨row, har, hrb, rfl⟩ := (mem_positionsOf hb).mp hp
    rw [← agree_one.mp (agree_add.mp (hag row har hrb)).2, Array.getElem?_eq_getElem]

lemma IsBlock.diverse_iff (h : IsBlock index shared a b) (hi : index.Indexes keys) :
    LeftContext.ofRows keys index.starts a b = .diverse ↔
      ¬ ∃ key, ∀ p ∈ positionsOf index a b, 0 < p ∧ keys[p - 1]? = some key := by
  have hbn := hi.size ▸ h.le
  rw [LeftContext.ofRows_eq_diverse_iff h.lt fun row _ hb => (hi.start_lt (by omega)).le]
  refine not_congr (exists_congr fun key => ?_)
  simp only [mem_positionsOf (h.le_starts hi)]
  constructor
  · rintro hk p ⟨row, ha, hb, rfl⟩
    exact hk row ha hb
  · exact fun hk row ha hb => hk _ ⟨row, ha, hb, rfl⟩

lemma IsInterval.isMaximal (h : IsInterval index shared a b) (hi : index.Indexes keys)
    (hl : LeftContext.ofRows keys index.starts a b = .diverse) :
    IsMaximal keys ⟨shared, positionsOf index a b⟩ := by
  have hbl := h.isBlock
  obtain ⟨row, har, hrb, he⟩ := h.attained
  have hs := sorted_positionsOf (a := a) (b := b) hi
  have h2 : 2 ≤ (positionsOf index a b).length := by
    rw [length_positionsOf (hbl.le_starts hi)]
    omega
  have hq : index.starts.getD row 0 ∈ positionsOf index a b :=
    (mem_positionsOf (hbl.le_starts hi)).mpr ⟨row, har.le, hrb, rfl⟩
  refine ⟨?_, hs, h2, (hbl.diverse_iff hi).mp hl, fun hb => ?_⟩
  · rw [occurs_iff h.pos hq]
    refine fun p => hbl.mem_positionsOf_iff hi hq (add_le_of_agree hs h2 (fun p hp => ?_) ?_ hq)
    · exact (hbl.positionsOf_le hi hp).le
    · exact fun p hp q hq => hbl.agree_positionsOf hi hp hq
  · have := (hbl.behind_iff hi (by omega)).mp hb row har hrb
    omega

lemma IsMaximal.exists_interval {r : Repeat} (h : IsMaximal keys r) (hi : index.Indexes keys)
    (hpos : 0 < r.length) : ∃ a b, IsInterval index r.length a b ∧
      LeftContext.ofRows keys index.starts a b = .diverse ∧ positionsOf index a b = r.positions := by
  obtain ⟨q, hq⟩ := List.exists_mem_of_length_pos (Nat.zero_lt_of_lt h.several)
  have hocc := (occurs_iff hpos hq).mp h.occurs
  obtain ⟨hql, -⟩ := (hocc q).mp hq
  obtain ⟨row, hr, hrow⟩ := hi.exists_row (by omega : q < keys.size)
  obtain ⟨a, b, har, hrb, hbl⟩ := exists_block hi.first hpos (hi.size.symm ▸ hr)
  have hqm : q ∈ positionsOf index a b := (mem_positionsOf (hbl.le_starts hi)).mpr ⟨row, har, hrb, hrow⟩
  have hpe : positionsOf index a b = r.positions := by
    refine (sorted_positionsOf hi).eq_of_mem_iff h.sorted fun p => ?_
    rw [hocc, hbl.mem_positionsOf_iff hi hqm hql]
  have h2 : a + 2 ≤ b := by
    have := h.several
    rw [← hpe, length_positionsOf (hbl.le_starts hi)] at this
    omega
  refine ⟨a, b, hbl.attained_of fun hall => h.behind ?_, (hbl.diverse_iff hi).mpr ?_, hpe⟩
  · rw [← hpe]
    exact (hbl.behind_iff hi h2).mpr hall
  · rw [hpe]
    exact h.before

lemma IsBlock.ext {a' b' : ℕ} (h : IsBlock index shared a b) (h' : IsBlock index shared a' b')
    (hi : index.Indexes keys) (he : positionsOf index a b = positionsOf index a' b') :
    a = a' ∧ b = b' := by
  have hsub : ∀ {a b a' b'}, IsBlock index shared a b → IsBlock index shared a' b' →
      positionsOf index a b = positionsOf index a' b' → ∀ row, a ≤ row → row < b → a' ≤ row ∧ row < b' := by
    intro a b a' b' h h' he row har hrb
    have hm := (mem_positionsOf (h.le_starts hi)).mpr ⟨row, har, hrb, rfl⟩
    rw [he] at hm
    obtain ⟨row', har', hrb', he'⟩ := (mem_positionsOf (h'.le_starts hi)).mp hm
    obtain rfl := hi.start_inj (hrb'.trans_le (hi.size ▸ h'.le)) (hrb.trans_le (hi.size ▸ h.le)) he'
    exact ⟨har', hrb'⟩
  have hlt := h.lt
  have hlt' := h'.lt
  have h1 := hsub h h' he a le_rfl hlt
  have h2 := hsub h h' he (b - 1) (by omega) (by omega)
  have h3 := hsub h' h he.symm a' le_rfl hlt'
  have h4 := hsub h' h he.symm (b' - 1) (by omega) (by omega)
  omega

lemma ofInterval_eq (i : Interval) : ofInterval index i = ⟨i.shared, positionsOf index i.first i.stop⟩ :=
  rfl

lemma all_eq (keys : Array ℕ) (index : SuffixIndex) (minimum : ℕ) : all keys index minimum =
    (((intervals keys index).filter fun i => max minimum 1 ≤ i.shared ∧ i.left = .diverse).map
      (ofInterval index)).mergeSort comesBefore := by
  have hm := mapM_eq_pure (m := Id) (f := ofIntervalM index) (g := ofInterval index)
    (s := (intervals keys index).filter fun i => max minimum 1 ≤ i.shared ∧ i.left = .diverse) fun _ _ => rfl
  exact congrArg (List.mergeSort · comesBefore) hm

lemma mem_all (hi : index.Indexes keys) {minimum : ℕ} {r : Repeat} :
    r ∈ all keys index minimum ↔ max minimum 1 ≤ r.length ∧ IsMaximal keys r := by
  simp only [all_eq, List.mem_mergeSort, List.mem_map, List.mem_filter, decide_eq_true_eq]
  constructor
  · rintro ⟨i, ⟨hm, hl, hd⟩, rfl⟩
    obtain ⟨hint, hleft⟩ := (mem_intervals hi).mp hm
    exact ⟨hl, hint.isMaximal hi (hleft ▸ hd)⟩
  · rintro ⟨hl, hmax⟩
    obtain ⟨a, b, hint, hd, hp⟩ := hmax.exists_interval hi (by omega)
    refine ⟨⟨r.length, a, b, .diverse⟩, ⟨(mem_intervals hi).mpr ⟨hint, hd.symm⟩, hl, rfl⟩, ?_⟩
    rw [ofInterval_eq, hp]

lemma nodup_all (hi : index.Indexes keys) (minimum : ℕ) : (all keys index minimum).Nodup := by
  rw [all_eq]
  refine (List.mergeSort_perm _ _).nodup_iff.mpr ?_
  refine ((nodup_intervals hi).filter _).map_on fun i hmi j hmj he => ?_
  obtain ⟨hint, hleft⟩ := (mem_intervals hi).mp (List.mem_filter.mp hmi).1
  obtain ⟨hint', hleft'⟩ := (mem_intervals hi).mp (List.mem_filter.mp hmj).1
  rw [ofInterval_eq, ofInterval_eq, Repeat.mk.injEq] at he
  obtain ⟨ha, hb⟩ := hint.isBlock.ext (he.1 ▸ hint'.isBlock) hi he.2
  cases i
  cases j
  simp_all

def Before (r s : Repeat) : Prop := s.length < r.length ∨ r.length = s.length ∧ r.positions < s.positions

lemma Before.irrefl (r : Repeat) : ¬ Before r r := by
  rintro (h | ⟨-, h⟩)
  · exact lt_irrefl _ h
  · exact lt_irrefl _ h

lemma Before.asymm {r s : Repeat} (h : Before r s) : ¬ Before s r := by
  rcases h with h | ⟨h, hlt⟩
  · rintro (h' | ⟨h', -⟩) <;> omega
  · rintro (h' | ⟨-, hlt'⟩)
    · omega
    · exact hlt.asymm hlt'

instance : Std.Irrefl Before := ⟨Before.irrefl⟩

instance : Std.Antisymm Before := ⟨fun _ _ h h' => absurd h' h.asymm⟩

lemma comesBefore_iff {r s : Repeat} : comesBefore r s = true ↔
    s.length < r.length ∨ r.length = s.length ∧ ¬ s.positions < r.positions := by
  simp [comesBefore]

lemma comesBefore_trans {r s t : Repeat} (hrs : comesBefore r s = true) (hst : comesBefore s t = true) :
    comesBefore r t = true := by
  rw [comesBefore_iff] at hrs hst ⊢
  rcases hrs with hrs | ⟨hrs, hle⟩ <;> rcases hst with hst | ⟨hst, hle'⟩
  · exact Or.inl (hst.trans hrs)
  · exact Or.inl (hst ▸ hrs)
  · exact Or.inl (hrs ▸ hst)
  · refine Or.inr ⟨hrs.trans hst, fun hlt => ?_⟩
    rcases lt_trichotomy s.positions r.positions with h | h | h
    · exact hle h
    · exact hle' (h ▸ hlt)
    · exact hle' (hlt.trans h)

lemma comesBefore_total (r s : Repeat) : (comesBefore r s || comesBefore s r) = true := by
  rw [Bool.or_eq_true, comesBefore_iff, comesBefore_iff]
  rcases Nat.lt_trichotomy r.length s.length with h | h | h
  · exact Or.inr (Or.inl h)
  · by_cases hlt : s.positions < r.positions
    · exact Or.inr (Or.inr ⟨h.symm, hlt.asymm⟩)
    · exact Or.inl (Or.inr ⟨h, hlt⟩)
  · exact Or.inl (Or.inl h)

lemma pairwise_all (hi : index.Indexes keys) (minimum : ℕ) :
    (all keys index minimum).Pairwise Before := by
  have hs : (all keys index minimum).Pairwise fun r s => comesBefore r s = true := by
    rw [all_eq]
    exact @List.pairwise_mergeSort Repeat comesBefore (fun _ _ _ => comesBefore_trans) comesBefore_total _
  refine (hs.and (nodup_all hi minimum)).imp fun {r s} h => ?_
  rcases comesBefore_iff.mp h.1 with hl | ⟨hl, hle⟩
  · exact Or.inl hl
  · rcases lt_trichotomy r.positions s.positions with hlt | he | hlt
    · exact Or.inr ⟨hl, hlt⟩
    · exact absurd (Repeat.mk.injEq .. ▸ ⟨hl, he⟩ : r = s) h.2
    · exact absurd hlt hle

lemma all_eq_filter (keys : Array ℕ) (index : SuffixIndex) {minimum m : ℕ} (h : minimum ≤ m) :
    all keys index m = (all keys index minimum).filter (m ≤ ·.length) := by
  have hbound : ∀ i : Interval, decide (max m 1 ≤ i.shared ∧ i.left = .diverse) =
      (decide (m ≤ (ofInterval index i).length) && decide (max minimum 1 ≤ i.shared ∧ i.left = .diverse)) := by
    intro i
    rw [← Bool.decide_and, decide_eq_decide, ← and_assoc]
    have hl : (ofInterval index i).length = i.shared := rfl
    exact and_congr_left fun _ => by omega
  simp only [all_eq]
  rw [@filter_mergeSort Repeat comesBefore (fun _ _ _ => comesBefore_trans) comesBefore_total, List.filter_map,
    List.filter_filter]
  simp only [hbound, Function.comp_apply]

lemma ofIntervalM_eq {m : Type → Type} [Monad m] [LawfulMonad m] [Access m] (hi : index.Indexes keys) {i : Interval}
    (h : i ∈ intervals keys index) : (ofIntervalM index i : m Repeat) = pure (ofInterval index i) := by
  have hint := ((mem_intervals hi).mp h).1
  rw [ofIntervalM, slice_eq hint.isBlock.lt.le (hint.isBlock.le_starts hi), pure_bind]
  rfl

lemma allM_eq {m : Type → Type} [Monad m] [LawfulMonad m] [Access m] (hi : index.Indexes keys) (minimum : ℕ) :
    (allM keys index minimum : m _) = pure (all keys index minimum) := by
  have hm := mapM_eq_pure (m := m) (f := ofIntervalM index) (g := ofInterval index)
    (s := (intervals keys index).filter fun i => max minimum 1 ≤ i.shared ∧ i.left = .diverse)
    fun i hi' => ofIntervalM_eq hi (List.mem_of_mem_filter hi')
  rw [allM, intervalsM_eq hi, pure_bind, all_eq]
  dsimp only
  rw [hm, pure_bind]

lemma exists_isMaximal {length : ℕ} (hpos : 0 < length) (hp : p + length ≤ keys.size)
    (hq : q + length ≤ keys.size) (hne : p ≠ q) (h : Agree keys length p q)
    (hb : ¬ ∃ key, (0 < p ∧ keys[p - 1]? = some key) ∧ (0 < q ∧ keys[q - 1]? = some key))
    (hd : keys[p + length]? ≠ keys[q + length]?) :
    ∃ r : Repeat, r.length = length ∧ IsMaximal keys r ∧ p ∈ r.positions ∧ q ∈ r.positions := by
  classical
  let positions := (List.range keys.size).filter fun x => x + length ≤ keys.size ∧ Agree keys length p x
  have hm : ∀ x, x ∈ positions ↔ x + length ≤ keys.size ∧ Agree keys length p x := by
    intro x
    simp only [positions, List.mem_filter, List.mem_range, decide_eq_true_eq]
    exact ⟨fun hx => hx.2, fun hx => ⟨by omega, hx⟩⟩
  have hpm : p ∈ positions := (hm p).mpr ⟨hp, Agree.refl keys length p⟩
  have hqm : q ∈ positions := (hm q).mpr ⟨hq, h⟩
  refine ⟨⟨length, positions⟩, rfl, ⟨?_, ?_, (pair_subperm hne hpm hqm).length_le, ?_, ?_⟩, hpm, hqm⟩
  · exact (occurs_iff hpos hpm).mpr hm
  · exact List.pairwise_lt_range.filter _
  · rintro ⟨key, hk⟩
    exact hb ⟨key, hk p hpm, hk q hqm⟩
  · rintro ⟨key, hk⟩
    exact hd ((hk p hpm).trans (hk q hqm).symm)

/-- The scan lists exactly the maximal repeats that are long enough, each once and in order. -/
theorem all_eq_maximal (keys : Array ℕ) (minimum : ℕ) :
    (∀ r, r ∈ all keys (.build keys) minimum ↔ max minimum 1 ≤ r.length ∧ IsMaximal keys r) ∧
      (all keys (.build keys) minimum).Pairwise Before :=
  ⟨fun _ => mem_all (build_indexes keys), pairwise_all (build_indexes keys) minimum⟩

end CodeClones.Repeat
