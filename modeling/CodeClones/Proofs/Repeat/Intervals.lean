import CodeClones.Proofs.SuffixIndex.Rows
import CodeClones.Repeat

/-! The scan over the rows of a suffix index finds each interval of rows that share more elements than the
rows around them, and finds it once. -/

namespace CodeClones

namespace LeftContext

@[simp] lemma unset_merge (x : LeftContext) : unset.merge x = x := by cases x <;> rfl

@[simp] lemma merge_unset (x : LeftContext) : x.merge unset = x := by cases x <;> rfl

def ofRows (keys starts : Array ℕ) (a b : ℕ) : LeftContext :=
  ((List.range' a (b - a)).map fun row => ofPosition keys (starts.getD row 0)).foldl merge unset

variable {keys starts : Array ℕ} {a b c : ℕ}

@[simp] lemma ofRows_self : ofRows keys starts a a = unset := by
  simp [ofRows]

lemma ofRows_succ (h : a ≤ b) :
    ofRows keys starts a (b + 1) = (ofRows keys starts a b).merge (ofPosition keys (starts.getD b 0)) := by
  obtain ⟨n, rfl⟩ := Nat.exists_eq_add_of_le h
  have hn : a + n + 1 - a = n + 1 := by omega
  rw [ofRows, ofRows, hn, Nat.add_sub_cancel_left, List.range'_concat, List.map_append, List.foldl_append]
  simp

lemma ofRows_merge (hab : a ≤ b) (hbc : b ≤ c) :
    (ofRows keys starts a b).merge (ofRows keys starts b c) = ofRows keys starts a c := by
  induction c, hbc using Nat.le_induction with
  | base => simp
  | succ c hbc ih => rw [ofRows_succ hbc, ← merge_assoc, ih, ofRows_succ (hab.trans hbc)]

lemma merge_ne_unset {x y : LeftContext} (hy : y ≠ unset) : x.merge y ≠ unset := by
  cases x <;> cases y <;> simp_all only [merge, ne_eq, reduceCtorEq, not_false_eq_true, not_true]
  split <;> simp

lemma merge_eq_uniform_iff {x y : LeftContext} {key : ℕ} (hx : x ≠ unset) (hy : y ≠ unset) :
    x.merge y = uniform key ↔ x = uniform key ∧ y = uniform key := by
  cases x <;> cases y <;> simp_all [merge]
  split
  · simp_all
  · simp only [false_iff, reduceCtorEq, not_and]
    omega

@[simp] lemma ofPosition_zero (keys : Array ℕ) : ofPosition keys 0 = diverse := rfl

@[simp] lemma ofPosition_succ (keys : Array ℕ) (p : ℕ) : ofPosition keys (p + 1) = uniform (keys.getD p 0) := rfl

lemma ofPositionM_eq {m : Type → Type} [Monad m] [LawfulMonad m] [Access m] {p : ℕ} (hp : p ≤ keys.size) :
    (ofPositionM keys p : m LeftContext) = pure (ofPosition keys p) := by
  cases p with
  | zero => rfl
  | succ p =>
    rw [ofPositionM, read_eq hp, pure_bind]
    rfl

lemma ofPosition_ne_unset (keys : Array ℕ) (p : ℕ) : ofPosition keys p ≠ unset := by
  cases p <;> simp

lemma ofPosition_eq_uniform_iff {p key : ℕ} (hp : p ≤ keys.size) :
    ofPosition keys p = uniform key ↔ 0 < p ∧ keys[p - 1]? = some key := by
  cases p with
  | zero => simp
  | succ p => simp [show p < keys.size from hp]

lemma ofRows_ne_unset (h : a < b) : ofRows keys starts a b ≠ unset := by
  obtain ⟨c, rfl⟩ := Nat.exists_eq_succ_of_ne_zero (Nat.ne_zero_of_lt h)
  rw [Nat.succ_eq_add_one, ofRows_succ (Nat.lt_succ_iff.mp h)]
  exact merge_ne_unset (ofPosition_ne_unset keys _)

lemma ofRows_eq_uniform_iff {key : ℕ} (h : a < b) : ofRows keys starts a b = uniform key ↔
    ∀ row, a ≤ row → row < b → ofPosition keys (starts.getD row 0) = uniform key := by
  induction b, h using Nat.le_induction with
  | base =>
    rw [ofRows_succ le_rfl, ofRows_self, unset_merge]
    refine ⟨fun h row ha hb => ?_, fun h => h a le_rfl (Nat.lt_succ_self a)⟩
    obtain rfl : row = a := by omega
    exact h
  | succ b hb ih =>
    have hab : a < b := hb
    rw [ofRows_succ hab.le, merge_eq_uniform_iff (ofRows_ne_unset hab) (ofPosition_ne_unset keys _), ih]
    constructor
    · rintro ⟨h, h'⟩ row har hrb
      rcases Nat.lt_succ_iff_lt_or_eq.mp hrb with hrb | rfl
      · exact h row har hrb
      · exact h'
    · exact fun h => ⟨fun row har hrb => h row har (by omega), h b hab.le (Nat.lt_succ_self b)⟩

lemma ofRows_eq_diverse_iff (h : a < b)
    (hs : ∀ row, a ≤ row → row < b → starts.getD row 0 ≤ keys.size) :
    ofRows keys starts a b = diverse ↔ ¬ ∃ key, ∀ row, a ≤ row → row < b →
      0 < starts.getD row 0 ∧ keys[starts.getD row 0 - 1]? = some key := by
  have hu : ∀ key, ofRows keys starts a b = uniform key ↔ ∀ row, a ≤ row → row < b →
      0 < starts.getD row 0 ∧ keys[starts.getD row 0 - 1]? = some key := fun key =>
    (ofRows_eq_uniform_iff h).trans
      (forall₃_congr fun row ha hb => ofPosition_eq_uniform_iff (hs row ha hb))
  have hn : ofRows keys starts a b ≠ unset := ofRows_ne_unset h
  rw [← exists_congr hu]
  generalize ofRows keys starts a b = context at hn ⊢
  cases context <;> simp_all

end LeftContext

namespace Repeat

/-- All rows behind `first` and before `stop` share at least `shared` elements with the row before them,
and one of them no more. -/
structure IsOpen (index : SuffixIndex) (shared first stop : ℕ) : Prop where
  pos : 0 < shared
  before : index.shared.getD first 0 < shared
  inside : ∀ row, first < row → row < stop → shared ≤ index.shared.getD row 0
  attained : ∃ row, first < row ∧ row < stop ∧ index.shared.getD row 0 = shared

structure IsInterval (index : SuffixIndex) (shared first stop : ℕ) : Prop
    extends IsOpen index shared first stop where
  behind : index.shared.getD stop 0 < shared

/-- A stack of intervals that are open before row `row`. Each holds the context of its rows up to the
next interval inside it, and the innermost that of its rows before `covered`. -/
inductive Nested (keys : Array ℕ) (index : SuffixIndex) (row : ℕ) : ℕ → List OpenInterval → Prop
  | ground (covered : ℕ) : Nested keys index row covered [⟨0, 0, .ofRows keys index.starts 0 covered⟩]
  | inside {first covered shared : ℕ} {top : OpenInterval} {outer : List OpenInterval}
      (hc : first ≤ covered) (hn : Nested keys index row first (top :: outer)) (hlt : top.shared < shared)
      (hle : index.shared.getD first 0 ≤ top.shared)
      (hi : ∀ i, first < i → i < row → shared ≤ index.shared.getD i 0)
      (ha : ∃ i, first < i ∧ i < row ∧ index.shared.getD i 0 = shared) :
      Nested keys index row covered
        (⟨shared, first, .ofRows keys index.starts first covered⟩ :: top :: outer)

variable {keys : Array ℕ} {index : SuffixIndex} {row covered first shared : ℕ} {top : OpenInterval}
  {outer stack : List OpenInterval} {found : List Interval}

lemma Nested.pairwise (h : Nested keys index row covered stack) :
    stack.Pairwise fun e f => f.shared < e.shared := by
  induction h with
  | ground => simp
  | inside _ _ hlt _ _ _ ih =>
    refine List.pairwise_cons.mpr ⟨fun f hf => ?_, ih⟩
    rcases List.mem_cons.mp hf with rfl | hf
    · exact hlt
    · exact ((List.pairwise_cons.mp ih).1 f hf).trans hlt

lemma Nested.advance (h : Nested keys index row covered (top :: outer))
    (hs : top.shared ≤ index.shared.getD row 0) :
    Nested keys index (row + 1) covered (top :: outer) := by
  induction outer generalizing top covered with
  | nil =>
    cases h with
    | ground => exact .ground covered
  | cons next outer ih =>
    cases h with
    | inside hc hn hlt hle hi ha =>
      refine .inside hc (ih hn (hlt.le.trans hs)) hlt hle (fun i hi₁ hi₂ => ?_) ?_
      · rcases Nat.lt_succ_iff_lt_or_eq.mp hi₂ with hi₂ | rfl
        · exact hi i hi₁ hi₂
        · exact hs
      · obtain ⟨i, hi₁, hi₂, he⟩ := ha
        exact ⟨i, hi₁, by omega, he⟩

lemma Nested.push (h : Nested keys index row first (top :: outer)) (hf : first < row)
    (hgap : ∀ i, first < i → i < row → index.shared.getD row 0 ≤ index.shared.getD i 0)
    (hle : index.shared.getD first 0 ≤ top.shared) (hlt : top.shared < index.shared.getD row 0) :
    Nested keys index (row + 1) row
      (⟨index.shared.getD row 0, first, .ofRows keys index.starts first row⟩ :: top :: outer) := by
  refine .inside hf.le (h.advance hlt.le) hlt hle (fun i hi₁ hi₂ => ?_) ⟨row, hf, Nat.lt_succ_self row, rfl⟩
  rcases Nat.lt_succ_iff_lt_or_eq.mp hi₂ with hi₂ | rfl
  · exact hgap i hi₁ hi₂
  · exact le_rfl

lemma Nested.isOpen (h : Nested keys index row covered stack) {e : OpenInterval} (he : e ∈ stack)
    (hpos : 0 < e.shared) : IsOpen index e.shared e.first row := by
  induction h with
  | ground =>
    rw [List.mem_singleton.mp he] at hpos
    exact absurd hpos (Nat.lt_irrefl 0)
  | inside _ _ hlt hle hi ha ih =>
    rcases List.mem_cons.mp he with rfl | he
    · exact ⟨hpos, hle.trans_lt hlt, hi, ha⟩
    · exact ih he

lemma IsOpen.le_last (h : IsOpen index shared first (row + 1)) : shared ≤ index.shared.getD row 0 := by
  obtain ⟨i, hi, hr, _⟩ := h.attained
  exact h.inside row (by omega) (by omega)

lemma Nested.mem_of_isOpen (h : Nested keys index row covered (top :: outer))
    (ho : IsOpen index shared first row) (hle : shared ≤ top.shared) :
    ∃ e ∈ top :: outer, e.shared = shared ∧ e.first = first := by
  induction outer generalizing top covered with
  | nil =>
    cases h
    exact absurd ho.pos hle.not_gt
  | cons next outer ih =>
    cases h with
    | @inside a _ m _ _ _ hn hlt ha hi hatt =>
      change shared ≤ m at hle
      rcases Nat.lt_or_ge next.shared shared with hs | hs
      · obtain ⟨i, hi₁, hi₂, he⟩ := ho.attained
        obtain ⟨j, hj₁, hj₂, -⟩ := hatt
        have hfa : first ≤ a := by
          by_contra hlt'
          have := hi first (by omega) (by omega)
          have := ho.before
          omega
        have haf : a ≤ first := by
          by_contra hlt'
          have := ho.inside a (by omega) (by omega)
          omega
        obtain rfl : first = a := le_antisymm hfa haf
        have := hi i hi₁ hi₂
        exact ⟨_, List.mem_cons_self, le_antisymm (by omega : m ≤ shared) hle, rfl⟩
      · obtain ⟨e, he, hes⟩ := ih hn hs
        exact ⟨e, List.mem_cons_of_mem _ he, hes⟩

lemma Nested.cover (h : Nested keys index row covered (top :: outer)) {b : ℕ} (hb : covered ≤ b) :
    Nested keys index row b
      ({ top with left := top.left.merge (.ofRows keys index.starts covered b) } :: outer) := by
  cases h with
  | ground =>
    rw [LeftContext.ofRows_merge (Nat.zero_le covered) hb]
    exact .ground b
  | inside hc hn hlt hle hi ha =>
    rw [LeftContext.ofRows_merge hc hb]
    exact .inside (hc.trans hb) hn hlt hle hi ha

lemma closeAbove_of_le (h : Nested keys index row first (top :: outer)) (hf : first < row)
    (hgap : ∀ i, first < i → i < row → index.shared.getD row 0 ≤ index.shared.getD i 0)
    (hle : index.shared.getD first 0 ≤ top.shared) (hm : top.shared ≤ index.shared.getD row 0) :
    ∃ top' outer', (closeAbove (index.shared.getD row 0) row first (.ofRows keys index.starts first row)
        found (top :: outer)).stack = top' :: outer' ∧
      top'.shared = index.shared.getD row 0 ∧ Nested keys index (row + 1) row (top' :: outer') := by
  rcases Nat.lt_or_eq_of_le hm with hlt | he
  · refine ⟨_, _, ?_, rfl, h.push hf hgap hle hlt⟩
    rw [closeAbove, if_neg hlt.asymm, if_neg hlt.ne]
  · refine ⟨_, _, ?_, ?_, (h.cover hf.le).advance hm⟩
    · rw [closeAbove, if_neg hm.not_gt, if_pos he]
    · exact he

/-- The intervals that share more than the next row end there; the others stay open, and one that shares
as much as the next row is among them or opens. -/
lemma closeAbove_nested (h : Nested keys index row first (top :: outer)) (hf : first < row)
    (hgap : ∀ i, first < i → i < row → index.shared.getD row 0 ≤ index.shared.getD i 0)
    (hle : index.shared.getD first 0 ≤ top.shared) :
    ∃ top' outer', (closeAbove (index.shared.getD row 0) row first (.ofRows keys index.starts first row)
        found (top :: outer)).stack = top' :: outer' ∧
      top'.shared = index.shared.getD row 0 ∧ Nested keys index (row + 1) row (top' :: outer') := by
  induction outer generalizing top first found with
  | nil =>
    cases h with
    | ground => exact closeAbove_of_le (.ground first) hf hgap hle (Nat.zero_le _)
  | cons next outer ih =>
    rcases Nat.lt_or_ge (index.shared.getD row 0) top.shared with hm | hm
    · cases h with
      | inside hc hn hlt ha hi hatt =>
        rw [closeAbove, if_pos hm, LeftContext.ofRows_merge hc hf.le]
        exact ih hn (hc.trans_lt hf) (fun i hi₁ hi₂ => hm.le.trans (hi i hi₁ hi₂)) ha
    · exact closeAbove_of_le h hf hgap hle hm

def closed (keys : Array ℕ) (index : SuffixIndex) (row : ℕ) (stack : List OpenInterval) : List Interval :=
  (stack.filter (index.shared.getD row 0 < ·.shared)).map fun e =>
    ⟨e.shared, e.first, row, .ofRows keys index.starts e.first row⟩

lemma closed_cons (hm : index.shared.getD row 0 < top.shared) :
    closed keys index row (top :: outer) =
      ⟨top.shared, top.first, row, .ofRows keys index.starts top.first row⟩ ::
        closed keys index row outer := by
  rw [closed, List.filter_cons, if_pos (decide_eq_true hm)]
  rfl

lemma closeAbove_found (found : List Interval) (h : Nested keys index row first stack) (hf : first ≤ row) :
    (closeAbove (index.shared.getD row 0) row first (.ofRows keys index.starts first row) found stack).found =
      (closed keys index row stack).reverse ++ found := by
  induction stack generalizing first found with
  | nil => cases h
  | cons top outer ih =>
    rcases Nat.lt_or_ge (index.shared.getD row 0) top.shared with hm | hm
    · cases h with
      | ground => exact absurd hm (Nat.not_lt_zero _)
      | inside hc hn hlt ha hi hatt =>
        rw [closeAbove, if_pos hm, LeftContext.ofRows_merge hc hf, ih _ hn (hc.trans hf), closed_cons hm,
          List.reverse_cons, List.append_assoc, List.singleton_append]
    · have hc : closed keys index row (top :: outer) = [] := by
        simp only [closed, List.map_eq_nil_iff, List.filter_eq_nil_iff, decide_eq_true_eq, not_lt]
        intro e he
        rcases List.mem_cons.mp he with rfl | he
        · exact hm
        · exact ((List.pairwise_cons.mp h.pairwise).1 e he).le.trans hm
      rw [closeAbove, if_neg hm.not_gt, hc, List.reverse_nil, List.nil_append]
      split <;> rfl

lemma mem_closed {i : Interval} (h : Nested keys index (row + 1) row (top :: outer))
    (ht : top.shared = index.shared.getD row 0) :
    i ∈ closed keys index (row + 1) (top :: outer) ↔
      IsInterval index i.shared i.first i.stop ∧ i.stop = row + 1 ∧
        i.left = .ofRows keys index.starts i.first i.stop := by
  simp only [closed, List.mem_map, List.mem_filter, decide_eq_true_eq]
  constructor
  · rintro ⟨e, ⟨he, hlt⟩, rfl⟩
    exact ⟨⟨h.isOpen he (Nat.zero_lt_of_lt hlt), hlt⟩, rfl, rfl⟩
  · obtain ⟨shared, first, stop, left⟩ := i
    rintro ⟨hi, hs, hl⟩
    dsimp only at hi hs hl
    subst hs hl
    obtain ⟨e, he, rfl, rfl⟩ := h.mem_of_isOpen hi.toIsOpen (ht ▸ hi.toIsOpen.le_last)
    exact ⟨e, ⟨he, hi.behind⟩, rfl⟩

structure Scan.Valid (keys : Array ℕ) (index : SuffixIndex) (row : ℕ) (scan : Scan) : Prop where
  nested : ∃ top outer, scan.stack = top :: outer ∧ top.shared = index.shared.getD row 0 ∧
    Nested keys index (row + 1) row (top :: outer)
  mem_found : ∀ i, i ∈ scan.found ↔ IsInterval index i.shared i.first i.stop ∧ i.stop ≤ row ∧
    i.left = .ofRows keys index.starts i.first i.stop
  nodup : scan.found.Nodup

lemma Scan.valid_zero (h0 : index.shared.getD 0 0 = 0) :
    Scan.Valid keys index 0 ⟨[⟨0, 0, .unset⟩], []⟩ where
  nested := by
    have hg : Nested keys index 1 0 [⟨0, 0, .ofRows keys index.starts 0 0⟩] := .ground 0
    rw [LeftContext.ofRows_self] at hg
    exact ⟨_, _, rfl, h0.symm, hg⟩
  mem_found i := by
    refine iff_of_false List.not_mem_nil ?_
    rintro ⟨⟨⟨_, _, _, j, hj, hs, _⟩, _⟩, hi, _⟩
    omega
  nodup := List.nodup_nil

def Scan.step (keys : Array ℕ) (index : SuffixIndex) (scan : Scan) (row : ℕ) : Scan :=
  closeAbove (index.shared.getD (row + 1) 0) (row + 1) row (.ofPosition keys (index.starts.getD row 0))
    scan.found scan.stack

lemma Scan.Valid.step {scan : Scan} (h : scan.Valid keys index row) :
    (scan.step keys index row).Valid keys index (row + 1) := by
  obtain ⟨top, outer, hs, ht, hn⟩ := h.nested
  have hl : LeftContext.ofPosition keys (index.starts.getD row 0) =
      .ofRows keys index.starts row (row + 1) := by
    rw [LeftContext.ofRows_succ le_rfl, LeftContext.ofRows_self, LeftContext.unset_merge]
  have hf := closeAbove_found scan.found hn (Nat.le_succ row)
  rw [Scan.step, hs, hl]
  refine ⟨closeAbove_nested hn (Nat.lt_succ_self row) (fun i hi₁ hi₂ => by omega) ht.ge, fun i => ?_, ?_⟩
  · rw [hf, List.mem_append, List.mem_reverse, mem_closed hn ht, h.mem_found]
    have hle : i.stop ≤ row + 1 ↔ i.stop = row + 1 ∨ i.stop ≤ row := by omega
    rw [hle]
    tauto
  · rw [hf, List.nodup_append]
    refine ⟨List.nodup_reverse.mpr ?_, h.nodup, fun i hi j hj he => ?_⟩
    · refine List.pairwise_map.mpr ((hn.pairwise.filter _).imp fun hef he => ?_)
      exact hef.ne' (congrArg Interval.shared he)
    · have hi' := ((mem_closed hn ht).mp (List.mem_reverse.mp hi)).2.1
      have hj' := ((h.mem_found j).mp hj).2.1
      rw [← he] at hj'
      omega

lemma valid_foldl (h0 : index.shared.getD 0 0 = 0) (n : ℕ) :
    Scan.Valid keys index n ((List.range n).foldl (Scan.step keys index) ⟨[⟨0, 0, .unset⟩], []⟩) := by
  induction n with
  | zero => exact Scan.valid_zero h0
  | succ n ih =>
    rw [List.range_succ, List.foldl_append]
    exact ih.step

lemma IsInterval.stop_le {stop : ℕ} (h : IsInterval index shared first stop) :
    stop ≤ index.shared.size := by
  obtain ⟨row, hf, hs, he⟩ := h.attained
  by_contra hn
  have hl : shared ≤ index.shared.getD (stop - 1) 0 := h.inside _ (by omega) (by omega)
  have hz : index.shared.getD (stop - 1) 0 = 0 := by
    simp [show index.shared.size ≤ stop - 1 by omega]
  have := h.pos
  omega

section

variable {m : Type → Type} [Monad m] [LawfulMonad m] [Access m] (hi : index.Indexes keys)

include hi

lemma sharedAtM_eq (row : ℕ) : (sharedAtM index row : m ℕ) = pure (index.shared.getD row 0) := by
  have hsize : index.size = index.shared.size := hi.size_starts.trans hi.size.symm
  rw [sharedAtM, hsize]
  by_cases hlt : row < index.shared.size
  · rw [if_pos hlt, read_eq hlt]
  · rw [if_neg hlt]
    simp [show index.shared.size ≤ row by omega]

lemma Scan.stepM_eq (scan : Scan) (hr : row < index.size) :
    (scan.stepM keys index row : m Scan) = pure (scan.step keys index row) := by
  have hle : index.starts.getD row 0 ≤ keys.size := (hi.start_lt (hi.size_starts ▸ hr)).le
  rw [Scan.stepM, sharedAtM_eq hi, pure_bind, read_eq hr, pure_bind, LeftContext.ofPositionM_eq hle, pure_bind]
  rfl

lemma intervalsM_eq_foldl : (intervalsM keys index : m _) =
    pure ((List.range index.size).foldl (Scan.step keys index) ⟨[⟨0, 0, .unset⟩], []⟩).found := by
  rw [intervalsM, foldlM_eq_pure fun row hr scan => Scan.stepM_eq hi scan (List.mem_range.mp hr), pure_bind]

lemma intervals_eq_foldl : intervals keys index =
    ((List.range index.size).foldl (Scan.step keys index) ⟨[⟨0, 0, .unset⟩], []⟩).found :=
  intervalsM_eq_foldl (m := Id) hi

lemma intervalsM_eq : (intervalsM keys index : m _) = pure (intervals keys index) := by
  rw [intervalsM_eq_foldl hi, intervals_eq_foldl hi]

lemma mem_intervals {i : Interval} : i ∈ intervals keys index ↔ IsInterval index i.shared i.first i.stop ∧
    i.left = .ofRows keys index.starts i.first i.stop := by
  rw [intervals_eq_foldl hi, (valid_foldl hi.first index.size).mem_found i]
  refine ⟨fun h => ⟨h.1, h.2.2⟩, fun h => ⟨h.1, h.1.stop_le.trans_eq ?_, h.2⟩⟩
  exact hi.size.trans hi.size_starts.symm

lemma nodup_intervals : (intervals keys index).Nodup := by
  rw [intervals_eq_foldl hi]
  exact (valid_foldl hi.first index.size).nodup

end

end Repeat

end CodeClones
