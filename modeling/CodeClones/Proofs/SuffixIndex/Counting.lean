import Mathlib.Algebra.Ring.Nat
import CodeClones.SuffixIndex
import CodeClones.Proofs.Access
import CodeClones.Proofs.Lists

/-! One round of sorting by counting: the positions in the order of what is behind them, the rows at which the
positions of each rank begin, and the positions put into those rows one after another. -/

namespace CodeClones.SuffixIndex

variable {m : Type → Type} [Monad m] [LawfulMonad m] [Access m] {done s : List ℕ} {order ranks counts : Array ℕ}
  {n width classes c p : ℕ}

lemma getD_setIfInBounds {xs : Array ℕ} {i a : ℕ} (hi : i < xs.size) (j : ℕ) :
    (xs.setIfInBounds i a).getD j 0 = if i = j then a else xs.getD j 0 := by
  by_cases h : i = j
  · subst h
    simp [hi]
  · simp [h]

lemma setIfInBounds_append (x a : ℕ) (s t : List ℕ) :
    (s ++ x :: t).toArray.setIfInBounds s.length a = (s ++ a :: t).toArray := by
  rw [List.setIfInBounds_toArray, List.set_append_right _ _ (Nat.le_refl _), Nat.sub_self, List.set_cons_zero]

/-! ### The order behind the positions -/

def Filling.Holds (n : ℕ) (done : List ℕ) (f : Filling) : Prop :=
  f.length = done.length ∧ ∃ rest, f.buffer = (done ++ rest).toArray ∧ done.length + rest.length = n

lemma Filling.Holds.pushM {f : Filling} (h : f.Holds n done) (hn : done.length < n) (p : ℕ) :
    Gives (f.pushM p : m Filling) (Holds n (done ++ [p])) := by
  obtain ⟨hl, rest, hb, hr⟩ := h
  cases rest with
  | nil =>
    rw [List.length_nil] at hr
    omega
  | cons x rest =>
    rw [List.length_cons] at hr
    have hlt : f.length < f.buffer.size := by
      rw [hb, hl]
      simp
    rw [Filling.pushM, write_eq hlt, pure_bind, hb, hl, setIfInBounds_append]
    exact Gives.pure ⟨by simp, rest, by simp, by simp; omega⟩

def orderBehind (n width : ℕ) (order : List ℕ) : List ℕ :=
  (List.range n).drop (n - width) ++ (order.filter (width ≤ ·)).map (· - width)

lemma map_sub_filter_range (n width : ℕ) :
    ((List.range n).filter (width ≤ ·)).map (· - width) = List.range (n - width) := by
  rcases Nat.le_total width n with h | h
  · obtain ⟨k, rfl⟩ := Nat.exists_eq_add_of_le h
    have hlow : (List.range width).filter (width ≤ ·) = [] := by
      apply List.filter_eq_nil_iff.mpr
      intro p hp
      have := List.mem_range.mp hp
      simpa using this
    have hid : (fun p => p - width) ∘ (width + ·) = id := funext fun p => Nat.add_sub_cancel_left width p
    rw [List.range_add, List.filter_append, hlow, List.nil_append, List.filter_eq_self.mpr (by simp), List.map_map,
      Nat.add_sub_cancel_left, hid, List.map_id]
  · have hlow : (List.range n).filter (width ≤ ·) = [] := by
      apply List.filter_eq_nil_iff.mpr
      intro p hp
      have := List.mem_range.mp hp
      rw [decide_eq_true_eq]
      omega
    rw [hlow, Nat.sub_eq_zero_of_le h]
    rfl

lemma orderBehind_perm (h : s.Perm (List.range n)) (width : ℕ) : (orderBehind n width s).Perm (List.range n) := by
  have hmap := (h.filter (width ≤ ·)).map (· - width)
  rw [map_sub_filter_range] at hmap
  apply (hmap.append_left _).trans
  apply List.perm_append_comm.trans
  have htake : List.range (n - width) = (List.range n).take (n - width) := by
    rw [List.take_range, Nat.min_eq_left (Nat.sub_le n width)]
  rw [htake, List.take_append_drop]

lemma orderBehindM_gives {buffer : Array ℕ} (hp : order.toList.Perm (List.range n)) (hb : buffer.size = n)
    (width : ℕ) : Gives (orderBehindM width order buffer : m _) (· = (orderBehind n width order.toList).toArray) := by
  have hn : order.size = n := by simpa using hp.length_eq
  have htotal : (orderBehind n width order.toList).length = n := by
    simpa using (orderBehind_perm hp width).length_eq
  rw [orderBehind, List.length_append] at htotal
  rw [orderBehindM, hn]
  have hshort := Gives.foldlM (m := m) (f := Filling.pushM) (s := (List.range n).drop (n - width))
    (b := ⟨buffer, 0⟩) (I := Filling.Holds n) ⟨rfl, buffer.toList, rfl, by simpa using hb⟩ fun done p rest f hs hf => by
      apply hf.pushM
      rw [hs, List.length_append, List.length_cons] at htotal
      omega
  apply hshort.bind
  intro f hf
  have hlong := Gives.foldlM (m := m) (s := order.toList) (b := f)
    (f := fun f p => do if width ≤ p then f.pushM (← minus p width) else return f)
    (I := fun done => Filling.Holds n ((List.range n).drop (n - width) ++ (done.filter (width ≤ ·)).map (· - width)))
    (by simpa using hf) fun done p rest f hs hf => by
      rw [List.filter_append, List.map_append, ← List.append_assoc]
      by_cases hw : width ≤ p
      · rw [if_pos hw, minus_eq hw, pure_bind]
        have hrest := hf.pushM (m := m) (p := p - width) (by
          rw [hs, List.filter_append, List.filter_cons_of_pos (by simpa using hw), List.length_map,
            List.length_append, List.length_cons] at htotal
          rw [List.length_append, List.length_map]
          omega)
        simpa [hw] using hrest
      · rw [if_neg hw]
        simpa [hw] using Gives.pure hf
  apply hlong.bind
  intro f hf
  obtain ⟨-, rest, hbuffer, hlength⟩ := hf
  rw [List.length_append] at hlength
  have hrest : rest = [] := List.eq_nil_of_length_eq_zero (by omega)
  rw [hrest, List.append_nil] at hbuffer
  exact Gives.pure hbuffer

/-! ### The first row of each rank -/

lemma countP_lt_succ (s : List ℕ) (rank : ℕ → ℕ) (c : ℕ) :
    s.countP (rank · < c + 1) = s.countP (rank · < c) + s.countP (rank · = c) := by
  induction s with
  | nil => rfl
  | cons p s ih =>
    rw [List.countP_cons, List.countP_cons, List.countP_cons, ih]
    rcases Nat.lt_trichotomy (rank p) c with h | h | h
    · simp [h, show rank p < c + 1 by omega, show ¬ rank p = c by omega]
      omega
    · simp [h]
      omega
    · simp [show ¬ rank p < c by omega, show ¬ rank p < c + 1 by omega, show ¬ rank p = c by omega]

lemma clear_gives (hc : classes < counts.size) :
    Gives ((List.range (classes + 1)).foldlM (fun counts c => write counts c 0) counts : m _)
      fun cleared => cleared.size = counts.size ∧ ∀ c ≤ classes, cleared.getD c 0 = 0 := by
  have h := Gives.foldlM_range (m := m) (n := classes + 1) (b := counts) (f := fun counts c => write counts c 0)
    (I := fun i cleared => cleared.size = counts.size ∧ ∀ c < i, cleared.getD c 0 = 0) ⟨rfl, by simp⟩ (by
      rintro i cleared hi ⟨hs, hz⟩
      rw [write_eq (by omega)]
      refine Gives.pure ⟨by simpa using hs, fun c hc => ?_⟩
      rw [getD_setIfInBounds (by omega)]
      split
      · rfl
      · exact hz c (by omega))
  exact h.imp fun cleared hi => ⟨hi.1, fun c hc => hi.2 c (Nat.lt_succ_of_le hc)⟩

lemma tally_gives (hc : classes < counts.size) (hz : ∀ c ≤ classes, counts.getD c 0 = 0)
    (hr : ∀ r ∈ ranks.toList, r < classes) :
    Gives (ranks.toList.foldlM (fun counts r => do write counts (r + 1) ((← read counts (r + 1)) + 1)) counts : m _)
      fun tallied => tallied.size = counts.size ∧
        ∀ c ≤ classes, tallied.getD c 0 = ranks.toList.countP (· + 1 = c) := by
  refine Gives.foldlM (I := fun done (tallied : Array ℕ) => tallied.size = counts.size ∧
    ∀ c ≤ classes, tallied.getD c 0 = done.countP (· + 1 = c)) ⟨rfl, by simpa using hz⟩ ?_
  rintro done r rest tallied hs ⟨hsize, hcount⟩
  have hlt : r + 1 < tallied.size := by
    have := hr r (by simp [hs])
    omega
  rw [read_eq hlt, pure_bind, write_eq hlt]
  refine Gives.pure ⟨by simpa using hsize, fun c hc => ?_⟩
  rw [getD_setIfInBounds hlt, List.countP_append, List.countP_singleton, ← hcount c hc]
  by_cases he : r + 1 = c
  · rw [he]
    simp
  · simp [he]

structure AddsUp (ranks : Array ℕ) (n classes i : ℕ) (counts : Array ℕ) : Prop where
  size : counts.size = n
  before : ∀ c < i, counts.getD c 0 = ranks.toList.countP (· < c)
  behind : ∀ c, i ≤ c → c ≤ classes → counts.getD c 0 = ranks.toList.countP (· + 1 = c)

lemma AddsUp.step {i : ℕ} (h : AddsUp ranks n classes (i + 1) counts) (hi : i + 1 ≤ classes) (hc : classes < n) :
    Gives (do write counts (i + 1) ((← read counts (i + 1)) + (← read counts (← minus (i + 1) 1))) : m _)
      (AddsUp ranks n classes (i + 2)) := by
  have hsize : i + 1 < counts.size := h.size ▸ hi.trans_lt hc
  rw [read_eq hsize, pure_bind, minus_eq (Nat.le_add_left 1 i), pure_bind, Nat.add_sub_cancel,
    read_eq (Nat.lt_of_succ_lt hsize), pure_bind, write_eq hsize]
  refine Gives.pure ⟨by simpa using h.size, fun c hc => ?_, fun c hle hc => ?_⟩
  · rw [getD_setIfInBounds hsize]
    by_cases he : i + 1 = c
    · have hone : ranks.toList.countP (· + 1 = i + 1) = ranks.toList.countP (· = i) := by simp
      rw [if_pos he, h.behind (i + 1) le_rfl hi, h.before i (Nat.lt_succ_self i), ← he, hone, Nat.add_comm]
      exact (countP_lt_succ _ id i).symm
    · rw [if_neg he]
      exact h.before c (by omega)
  · rw [getD_setIfInBounds hsize, if_neg (by omega)]
    exact h.behind c (by omega) hc

lemma countLowerM_gives (hc : classes < counts.size) (hr : ∀ r ∈ ranks.toList, r < classes) :
    Gives (countLowerM classes ranks counts : m _) fun lowers =>
      lowers.size = counts.size ∧ ∀ c ≤ classes, lowers.getD c 0 = ranks.toList.countP (· < c) := by
  apply (clear_gives hc).bind
  rintro cleared ⟨hcs, hz⟩
  apply (tally_gives (hcs ▸ hc) hz hr).bind
  rintro tallied ⟨hts, ht⟩
  have hstart : AddsUp ranks counts.size classes 1 tallied := by
    refine ⟨hts.trans hcs, fun c hc => ?_, fun c _ hc => ht c hc⟩
    obtain rfl : c = 0 := by omega
    rw [ht 0 (Nat.zero_le _)]
    simp
  refine (Gives.foldlM_range' hstart ?_).imp fun lowers h => ⟨h.size, fun c hc => h.before c (by omega)⟩
  intro i lowers hi hlt h
  obtain ⟨i, rfl⟩ := Nat.exists_eq_add_of_le' hi
  exact h.step (by omega) hc

/-! ### Rows for the positions -/

variable {rank : ℕ → ℕ}

def group (rank : ℕ → ℕ) (s : List ℕ) (c : ℕ) : List ℕ := s.filter (rank · = c)

def grouped (rank : ℕ → ℕ) (s : List ℕ) (classes : ℕ) : List ℕ := (List.range classes).flatMap (group rank s)

lemma grouped_succ (rank : ℕ → ℕ) (s : List ℕ) (c : ℕ) :
    grouped rank s (c + 1) = grouped rank s c ++ group rank s c := by
  rw [grouped, List.range_succ, List.flatMap_append, List.flatMap_singleton]
  rfl

lemma grouped_perm_filter (rank : ℕ → ℕ) (s : List ℕ) (classes : ℕ) :
    (grouped rank s classes).Perm (s.filter (rank · < classes)) := by
  induction classes with
  | zero => simp [grouped]
  | succ c ih =>
    have hlow : (s.filter (rank · < c + 1)).filter (rank · < c) = s.filter (rank · < c) := by
      rw [List.filter_filter]
      apply List.filter_congr
      intro p _
      rw [Bool.eq_iff_iff]
      simpa using by omega
    have hhigh : (s.filter (rank · < c + 1)).filter (fun p => !decide (rank p < c)) = group rank s c := by
      rw [List.filter_filter, group]
      apply List.filter_congr
      intro p _
      rw [Bool.eq_iff_iff]
      simpa using by omega
    have hsplit := List.filter_append_perm (fun p => decide (rank p < c)) (s.filter (rank · < c + 1))
    rw [hlow, hhigh] at hsplit
    rw [grouped_succ]
    exact (ih.append_right _).trans hsplit

lemma grouped_perm (h : ∀ p ∈ s, rank p < classes) : (grouped rank s classes).Perm s := by
  have hall : s.filter (rank · < classes) = s := List.filter_eq_self.mpr fun p hp => decide_eq_true (h p hp)
  exact (grouped_perm_filter rank s classes).trans (.of_eq hall)

def lower (rank : ℕ → ℕ) (s : List ℕ) (c : ℕ) : ℕ := (grouped rank s c).length

lemma lower_succ (rank : ℕ → ℕ) (s : List ℕ) (c : ℕ) :
    lower rank s (c + 1) = lower rank s c + (group rank s c).length := by
  rw [lower, grouped_succ, List.length_append]
  rfl

lemma lower_mono (rank : ℕ → ℕ) (s : List ℕ) {b c : ℕ} (h : b ≤ c) : lower rank s b ≤ lower rank s c := by
  induction h with
  | refl => exact le_rfl
  | step _ ih =>
    rw [lower_succ]
    exact ih.trans (Nat.le_add_right _ _)

lemma lower_le_length (rank : ℕ → ℕ) (s : List ℕ) (c : ℕ) : lower rank s c ≤ s.length := by
  rw [lower, (grouped_perm_filter rank s c).length_eq]
  exact List.length_filter_le _ s

lemma countP_toList (hs : s.Perm (List.range ranks.size)) (c : ℕ) :
    ranks.toList.countP (· < c) = lower (ranks.getD · 0) s c := by
  have hr : ranks.toList = (List.range ranks.size).map (ranks.getD · 0) := by
    apply List.ext_getElem
    · simp
    · intro i hi hi'
      have hlt : i < ranks.size := by simpa using hi
      simp [hlt]
  rw [lower, (grouped_perm_filter _ s c).length_eq, ← List.countP_eq_length_filter, hs.countP_eq, hr, List.countP_map]
  rfl

structure Placing.Holds (rank : ℕ → ℕ) (s : List ℕ) (n classes : ℕ) (done : List ℕ) (t : Placing) : Prop where
  size : t.order.size = s.length
  size_next : t.next.size = n
  next : ∀ c < classes, t.next.getD c 0 = lower rank s c + (group rank done c).length
  placed : ∀ c < classes, ∀ (j p : ℕ), (group rank done c)[j]? = some p → t.order[lower rank s c + j]? = some p

lemma group_append_self (done : List ℕ) : group rank (done ++ [p]) (rank p) = group rank done (rank p) ++ [p] := by
  simp [group]

lemma group_append_other (done : List ℕ) (h : c ≠ rank p) : group rank (done ++ [p]) c = group rank done c := by
  simp [group, h.symm]

lemma lower_add_le {rest : List ℕ} (hs : s = done ++ rest) (c : ℕ) :
    lower rank s c + (group rank done c).length ≤ lower rank s (c + 1) := by
  rw [lower_succ, hs, group, group, List.filter_append, List.length_append]
  omega

lemma Placing.Holds.addM {t : Placing} {rest : List ℕ} (h : t.Holds rank s n classes done)
    (hs : s = done ++ p :: rest) (hp : p < ranks.size) (hrank : ranks.getD p 0 = rank p) (hr : rank p < classes)
    (hc : classes ≤ n) : Gives (t.addM ranks p : m Placing) (Holds rank s n classes (done ++ [p])) := by
  have hself : group rank (done ++ [p]) (rank p) = group rank done (rank p) ++ [p] := group_append_self done
  have hroom : ∀ c, lower rank s c + (group rank (done ++ [p]) c).length ≤ lower rank s (c + 1) :=
    lower_add_le (by simpa using hs)
  have hend : lower rank s (rank p) + (group rank done (rank p)).length < lower rank s (rank p + 1) := by
    have := hroom (rank p)
    rw [hself, List.length_append, List.length_singleton] at this
    omega
  have hrow : lower rank s (rank p) + (group rank done (rank p)).length < t.order.size := by
    have := lower_le_length rank s (rank p + 1)
    have := h.size
    omega
  have hnext : rank p < t.next.size := h.size_next ▸ hr.trans_le hc
  rw [Placing.addM, read_eq hp, pure_bind, hrank, read_eq hnext, pure_bind, h.next _ hr, write_eq hrow, pure_bind,
    write_eq hnext, pure_bind]
  refine Gives.pure ⟨by simpa using h.size, by simpa using h.size_next, fun c hc => ?_, fun c hc j q hq => ?_⟩
  · dsimp only
    rw [getD_setIfInBounds hnext]
    by_cases he : rank p = c
    · rw [if_pos he, ← he, hself, List.length_append, List.length_singleton, Nat.add_assoc]
    · rw [if_neg he, group_append_other done (Ne.symm he)]
      exact h.next c hc
  · have hj := (List.getElem?_eq_some_iff.mp hq).1
    have hle := hroom c
    have hrest : lower rank s (rank p) + (group rank done (rank p)).length ≠ lower rank s c + j →
        t.order[lower rank s c + j]? = some q := by
      intro hne
      apply h.placed c hc
      by_cases hcr : c = rank p
      · subst hcr
        rw [hself, List.length_append, List.length_singleton] at hj
        rwa [hself, List.getElem?_append_left (by omega)] at hq
      · rwa [group_append_other done hcr] at hq
    dsimp only
    rw [Array.getElem?_setIfInBounds]
    split
    · next he =>
      -- Only the last position of its rank has this row.
      rcases Nat.lt_trichotomy c (rank p) with hlt | rfl | hlt
      · have : lower rank s (c + 1) ≤ lower rank s (rank p) := lower_mono rank s hlt
        omega
      · obtain rfl : j = (group rank done (rank p)).length := by omega
        rw [hself] at hq
        simpa using hq
      · have : lower rank s (rank p + 1) ≤ lower rank s c := lower_mono rank s hlt
        omega
    · next he => exact hrest he

/-- The positions come in the order of their ranks, and as before if they have the same. -/
lemma place_gives (hs : s.Perm (List.range ranks.size)) (hr : ∀ p < ranks.size, ranks.getD p 0 < classes)
    (ho : order.size = ranks.size) (hc : classes ≤ counts.size)
    (hl : ∀ c < classes, counts.getD c 0 = ranks.toList.countP (· < c)) :
    Gives (s.foldlM (Placing.addM ranks) ⟨order, counts⟩ : m _) fun t =>
      t.order = (grouped (ranks.getD · 0) s classes).toArray ∧ t.next.size = counts.size := by
  have hlt : ∀ p ∈ s, p < ranks.size := fun p hp => List.mem_range.mp (hs.mem_iff.mp hp)
  have hstart : Placing.Holds (ranks.getD · 0) s counts.size classes [] ⟨order, counts⟩ := by
    refine ⟨ho.trans ?_, rfl, fun c hc => ?_, by simp [group]⟩
    · rw [hs.length_eq, List.length_range]
    · rw [hl c hc, countP_toList hs]
      simp [group]
  refine (Gives.foldlM (I := Placing.Holds (ranks.getD · 0) s counts.size classes) hstart ?_).imp fun t ht => ?_
  · intro done p rest t he ht
    have hp := hlt p (by simp [he])
    exact ht.addM he hp rfl (hr p hp) hc
  · refine ⟨?_, ht.size_next⟩
    have hlength := (grouped_perm fun p hp => hr p (hlt p hp)).length_eq
    apply Array.ext_getElem?
    intro i
    rw [@List.getElem?_toArray _ (grouped (ranks.getD · 0) s classes)]
    rcases Nat.lt_or_ge i s.length with hi | hi
    · obtain ⟨c, hc, j, hj, rfl⟩ := exists_of_lt_length_flatMap_range (hi.trans_eq hlength.symm)
      have hget := getElem?_flatMap (group (ranks.getD · 0) s) (s := List.range classes) (List.getElem?_range hc) hj
      rw [List.take_range, Nat.min_eq_left hc.le] at hget
      rw [grouped, hget, List.getElem?_eq_getElem hj]
      exact ht.placed c hc j _ (List.getElem?_eq_getElem hj)
    · rw [Array.getElem?_eq_none (ht.size ▸ hi), List.getElem?_eq_none (hlength ▸ hi)]

end CodeClones.SuffixIndex
