import Mathlib.Data.List.Forall2
import Mathlib.Data.List.Perm.Subperm
import Mathlib.Data.List.Sort

/-! Lists: sorting by a number, two elements of a list, where the pieces of a joined list are, the last element
with a property, and the order of a list without its repetitions. -/

namespace CodeClones

variable {α : Type*} {s : List α} {a b : α} {i k : ℕ}

lemma pairwise_mergeSort_le (f : ℕ → ℕ) (l : List ℕ) :
    (l.mergeSort fun i j => f i ≤ f j).Pairwise fun i j => f i ≤ f j := by
  have h := @List.pairwise_mergeSort ℕ (fun i j => decide (f i ≤ f j))
    (fun a b c hab hbc => decide_eq_true ((of_decide_eq_true hab).trans (of_decide_eq_true hbc)))
    (fun a b => by simpa using le_total (f a) (f b)) l
  exact h.imp of_decide_eq_true

lemma pair_subperm (hne : a ≠ b) (ha : a ∈ s) (hb : b ∈ s) : [a, b].Subperm s := by
  refine List.Nodup.subperm (by simpa using hne) fun x hx => ?_
  rcases List.mem_cons.mp hx with rfl | hx
  · exact ha
  · exact List.mem_singleton.mp hx ▸ hb

lemma two_le_length_iff (hn : s.Nodup) : 2 ≤ s.length ↔ ∃ a ∈ s, ∃ b ∈ s, a ≠ b := by
  constructor
  · intro h
    obtain ⟨a, b, rest, rfl⟩ : ∃ a b rest, s = a :: b :: rest := by
      match s, h with
      | a :: b :: rest, _ => exact ⟨a, b, rest, rfl⟩
    refine ⟨a, List.mem_cons_self, b, List.mem_cons_of_mem _ List.mem_cons_self, ?_⟩
    rintro rfl
    exact (List.nodup_cons.mp hn).1 List.mem_cons_self
  · rintro ⟨a, ha, b, hb, hne⟩
    exact (pair_subperm hne ha hb).length_le

lemma getElem?_flatMap {β : Type*} (c : α → List β) (ha : s[k]? = some a)
    (hi : i < (c a).length) : (s.flatMap c)[((s.take k).flatMap c).length + i]? = (c a)[i]? := by
  obtain ⟨hk, rfl⟩ := List.getElem?_eq_some_iff.mp ha
  have hs : s = s.take k ++ s[k] :: s.drop (k + 1) := by simp
  have hc : s.flatMap c = (s.take k).flatMap c ++ (c s[k] ++ (s.drop (k + 1)).flatMap c) := by
    conv_lhs => rw [hs]
    rw [List.flatMap_append, List.flatMap_cons]
  rw [hc, List.getElem?_append_right (by omega), Nat.add_sub_cancel_left, List.getElem?_append_left hi]

lemma exists_of_lt_length_flatMap_range {c : ℕ → List α} {n : ℕ} (h : i < ((List.range n).flatMap c).length) :
    ∃ k < n, ∃ j < (c k).length, i = ((List.range k).flatMap c).length + j := by
  induction n with
  | zero => exact absurd h (Nat.not_lt_zero i)
  | succ n ih =>
    rw [List.range_succ, List.flatMap_append, List.flatMap_singleton, List.length_append] at h
    rcases Nat.lt_or_ge i ((List.range n).flatMap c).length with hlt | hge
    · obtain ⟨k, hk, hj⟩ := ih hlt
      exact ⟨k, Nat.lt_succ_of_lt hk, hj⟩
    · exact ⟨n, Nat.lt_succ_self n, i - ((List.range n).flatMap c).length, by omega, by omega⟩

lemma insertIdx_append_length (s t : List α) (a : α) : (s ++ t).insertIdx s.length a = s ++ a :: t := by
  induction s with
  | nil => exact List.insertIdx_zero
  | cons b s ih => rw [List.cons_append, List.length_cons, List.insertIdx_succ_cons, ih, List.cons_append]

lemma filterMap_zipIdx_take_succ {β : Type*} (c : α × ℕ → Option β) (ha : s[k]? = some a) :
    (s.take (k + 1)).zipIdx.filterMap c = (s.take k).zipIdx.filterMap c ++ (c (a, k)).toList := by
  have hk := (List.getElem?_eq_some_iff.mp ha).1
  rw [List.take_add_one, ha, Option.toList_some, List.zipIdx_append, List.filterMap_append, Nat.zero_add,
    List.length_take, Nat.min_eq_left hk.le, List.zipIdx_singleton]
  cases h : c (a, k) <;> simp [h]

lemma filterMap_range' {c : ℕ → Option α} {n : ℕ} (h : ∀ i < s.length, c (n + i) = s[i]?) :
    (List.range' n s.length).filterMap c = s := by
  induction s generalizing n with
  | nil => rfl
  | cons a s ih =>
    have ha : c n = some a := h 0 (Nat.zero_lt_succ _)
    rw [List.length_cons, List.range'_succ, List.filterMap_cons, ha]
    refine congrArg (a :: ·) (ih fun i hi => ?_)
    rw [Nat.add_assoc, Nat.add_comm 1 i, h (i + 1) (Nat.succ_lt_succ hi), List.getElem?_cons_succ]

lemma forall₂_mergeSort {β : Type*} {R : α → β → Prop} {t : List β} {le : α → α → Bool} {le' : β → β → Bool}
    (h : List.Forall₂ R s t) (hle : ∀ a a' b b', R a b → R a' b' → le a a' = le' b b') :
    List.Forall₂ R (s.mergeSort le) (t.mergeSort le') := by
  obtain ⟨hlen, hzip⟩ := List.forall₂_iff_zip.mp h
  have hleft : ((s.zip t).mergeSort fun x y => le x.1 y.1).map Prod.fst = s.mergeSort le := by
    rw [List.map_mergeSort (s := le) (f := Prod.fst) fun _ _ _ _ => rfl, List.map_fst_zip hlen.le]
  have hright : ((s.zip t).mergeSort fun x y => le x.1 y.1).map Prod.snd = t.mergeSort le' := by
    rw [List.map_mergeSort (s := le') (f := Prod.snd) fun x hx y hy => hle _ _ _ _ (hzip hx) (hzip hy),
      List.map_snd_zip hlen.ge]
  rw [← hleft, ← hright, List.forall₂_map_left_iff, List.forall₂_map_right_iff, List.forall₂_same]
  exact fun x hx => hzip (List.mem_mergeSort.mp hx)

lemma append_inj_of_parts {p : α → Bool} {s' t t' : List α} (h : s ++ t = s' ++ t') (hs : ∀ a ∈ s, (!p a) = true)
    (ht : ∀ a ∈ t, p a = true) (hs' : ∀ a ∈ s', (!p a) = true) (ht' : ∀ a ∈ t', p a = true) : s = s' ∧ t = t' := by
  have hfirst : ∀ {s t : List α}, (∀ a ∈ s, (!p a) = true) → (∀ a ∈ t, p a = true) →
      (s ++ t).filter (!p ·) = s := by
    intro s t hs ht
    rw [List.filter_append, List.filter_eq_self.mpr hs, List.filter_eq_nil_iff.mpr (by simpa using ht),
      List.append_nil]
  have he : s = s' := by rw [← hfirst hs ht, h, hfirst hs' ht']
  subst he
  exact ⟨rfl, List.append_cancel_left h⟩

lemma filter_mergeSort {le : α → α → Bool} (trans : ∀ a b c, le a b = true → le b c = true → le a c = true)
    (total : ∀ a b, (le a b || le b a) = true) (p : α → Bool) (s : List α) :
    (s.mergeSort le).filter p = (s.filter p).mergeSort le := by
  induction s with
  | nil => simp
  | cons a s ih =>
    obtain ⟨t, u, hcons, hs, ht⟩ := List.mergeSort_cons trans total a s
    rw [hs, List.filter_append] at ih
    rw [hcons, List.filter_append, List.filter_cons, List.filter_cons]
    split
    · obtain ⟨t', u', hcons', hs', ht'⟩ := List.mergeSort_cons trans total a (s.filter p)
      have hbehind : ∀ {v t u : List α}, v.mergeSort le = t ++ a :: u → ∀ b ∈ u, le a b = true := by
        intro v t u hv
        have hsorted := List.pairwise_mergeSort trans total v
        rw [hv] at hsorted
        exact (List.pairwise_cons.mp (List.pairwise_append.mp hsorted).2.1).1
      obtain ⟨rfl, rfl⟩ := append_inj_of_parts (ih.trans hs') (fun b hb => ht b (List.mem_of_mem_filter hb))
        (fun b hb => hbehind hcons b (List.mem_of_mem_filter hb)) ht' (hbehind hcons')
      exact hcons'.symm
    · exact ih

lemma find?_reverse_eq_some_iff {p : α → Bool} : s.reverse.find? p = some a ↔
    ∃ i, s[i]? = some a ∧ p a = true ∧ ∀ b ∈ s.drop (i + 1), ¬p b = true := by
  rw [List.find?_eq_some_iff_append]
  constructor
  · rintro ⟨ha, later, before, he, hlater⟩
    have hs : s = before.reverse ++ a :: later.reverse := by
      rw [← List.reverse_reverse s, he]
      simp
    refine ⟨before.length, by simp [hs], ha, fun b hb => ?_⟩
    have hb' : b ∈ later := by simpa [hs, List.drop_append, List.drop_of_length_le] using hb
    simpa using hlater b hb'
  · rintro ⟨i, hi, ha, hlater⟩
    obtain ⟨hlt, he⟩ := List.getElem?_eq_some_iff.mp hi
    have hs : s = s.take i ++ a :: s.drop (i + 1) := by
      rw [← he, List.getElem_cons_drop, List.take_append_drop]
    refine ⟨ha, (s.drop (i + 1)).reverse, (s.take i).reverse, ?_, by simpa using hlater⟩
    conv_lhs => rw [hs]
    simp

lemma le_of_forall_drop {p : α → Prop} (h : ∀ a ∈ s.drop (i + 1), ¬p a) (hk : s[k]? = some a) (ha : p a) : k ≤ i := by
  by_contra hlt
  have hmem : (s.drop (i + 1))[k - (i + 1)]? = some a := by
    rw [List.getElem?_drop, Nat.add_sub_cancel' (by omega), hk]
  exact h a (List.mem_of_getElem? hmem) ha

lemma pairwise_eraseDups [DecidableEq α] (s : List α) :
    s.eraseDups.Pairwise fun a b => ∃ front rest, s = front ++ a :: rest ∧ b ∉ front ∧ b ≠ a := by
  induction hn : s.length using Nat.strong_induction_on generalizing s with
  | _ n ih =>
    cases s with
    | nil => exact List.Pairwise.nil
    | cons a s =>
      have hlen : (s.filter fun b => !b == a).length < n :=
        (List.length_filter_le _ s).trans_lt (hn ▸ Nat.lt_succ_self s.length)
      have hne : ∀ b ∈ (s.filter fun b => !b == a).eraseDups, b ≠ a := fun b hb => by
        simpa using (List.mem_filter.mp (List.mem_eraseDups.mp hb)).2
      rw [List.eraseDups_cons]
      refine List.pairwise_cons.mpr ⟨fun b hb => ⟨[], s, rfl, List.not_mem_nil, hne b hb⟩, ?_⟩
      refine (ih _ hlen _ rfl).imp_of_mem fun {b d} _ hd hbd => ?_
      obtain ⟨front, rest, he, hfront, hdb⟩ := hbd
      obtain ⟨s₁, s₂, rfl, rfl, h₂⟩ := List.filter_eq_append_iff.mp he
      obtain ⟨s₃, s₄, rfl, h₃, -⟩ := List.filter_eq_cons_iff.mp h₂
      have hkept : (!d == a) = true := by simpa using hne d hd
      refine ⟨a :: (s₁ ++ s₃), s₄, by simp, ?_, hdb⟩
      rw [List.mem_cons, List.mem_append, not_or, not_or]
      exact ⟨hne d hd, fun hs => hfront (List.mem_filter.mpr ⟨hs, hkept⟩), fun hs => h₃ d hs hkept⟩

end CodeClones
