import Mathlib.Data.List.SplitBy
import CodeClones.Duplication.Pairs
import CodeClones.Proofs.Access
import CodeClones.Proofs.Lists

/-! The maximal pairs are the pairs of positions that are apart and differ on both sides. -/

namespace CodeClones.Duplication

variable {keys : Array ℕ} {positions : List ℕ} {length a b x y : ℕ} {parts : List (List ℕ)} {pair : ℕ × ℕ}
  {code : ℕ → ℕ}

lemma before?_of_pos (keys : Array ℕ) (h : 0 < x) : before? keys x = keys[x - 1]? := by
  obtain ⟨n, rfl⟩ := Nat.exists_eq_succ_of_ne_zero h.ne'
  rfl

lemma before?_eq_some {n : ℕ} : before? keys x = some n ↔ 0 < x ∧ keys[x - 1]? = some n := by
  cases x with
  | zero => simp
  | succ x => simp

lemma before?_eq_none (h : before? keys x = none) (hx : x ≤ keys.size) : x = 0 := by
  by_contra hne
  rw [before?_of_pos keys (by omega), Array.getElem?_eq_getElem (by omega)] at h
  exact absurd h (by simp)

lemma beforeM_eq {m : Type → Type} [Monad m] [LawfulMonad m] [Access m] (hx : x ≤ keys.size) :
    (beforeM keys x : m _) = pure (before? keys x) := by
  cases x with
  | zero => rfl
  | succ x =>
    rw [beforeM, require_eq (Nat.lt_of_succ_le hx), pure_bind]
    rfl

lemma map_splitBy {α β : Type*} (f : α → β) (r : β → β → Bool) (s : List α) :
    (s.map f).splitBy r = (s.splitBy fun a b => r (f a) (f b)).map (·.map f) := by
  have hloop : ∀ (s : List α) (a : α) (part : List α) (parts : List (List α)),
      List.splitBy.loop r (s.map f) (f a) (part.map f) (parts.map (·.map f)) =
        (List.splitBy.loop (fun a b => r (f a) (f b)) s a part parts).map (·.map f) := by
    intro s
    induction s with
    | nil => simp [List.splitBy.loop]
    | cons b s ih =>
      intro a part parts
      have hsame := ih b (a :: part) parts
      have hother := ih b [] ((a :: part).reverse :: parts)
      simp only [List.map_cons, List.splitBy.loop]
      cases r (f a) (f b)
      · simpa using hother
      · exact hsame
  cases s with
  | nil => rfl
  | cons a s => exact hloop s a [] []

lemma splitBy_mergeSort_map (code : ℕ → ℕ) (s : List ℕ) :
    (((s.map fun p => (code p, p)).mergeSort fun x y => x.1 ≤ y.1).splitBy fun x y => x.1 = y.1).map (·.map (·.2)) =
      (s.mergeSort fun p q => code p ≤ code q).splitBy fun p q => code p = code q := by
  have hsort : (s.map fun p => (code p, p)).mergeSort (fun x y => x.1 ≤ y.1) =
      (s.mergeSort fun p q => code p ≤ code q).map fun p => (code p, p) :=
    (@List.map_mergeSort _ _ (fun p q => decide (code p ≤ code q)) _ (fun p => (code p, p)) _ fun _ _ _ _ => rfl).symm
  have hsnd : ∀ part : List ℕ, (part.map fun p => (code p, p)).map (·.2) = part := fun part => by
    rw [List.map_map]
    exact List.map_id part
  rw [hsort, map_splitBy, List.map_map]
  simp only [Function.comp_def, hsnd, List.map_id']

lemma buckets_def (keys : Array ℕ) (positions : List ℕ) : buckets keys positions =
    (positions.mergeSort fun p q => (before? keys p).elim 0 (· + 1) ≤ (before? keys q).elim 0 (· + 1)).splitBy
      fun p q => (before? keys p).elim 0 (· + 1) = (before? keys q).elim 0 (· + 1) := by
  have hcoded : Id.run (positions.mapM fun p => (do return ((← beforeM keys p).elim 0 (· + 1), p))) =
      positions.map fun p => ((before? keys p).elim 0 (· + 1), p) :=
    mapM_eq_pure fun p _ => rfl
  rw [← splitBy_mergeSort_map, ← hcoded]
  rfl

lemma bucketsM_eq {m : Type → Type} [Monad m] [LawfulMonad m] [Access m] (h : ∀ p ∈ positions, p ≤ keys.size) :
    (bucketsM keys positions : m _) = pure (buckets keys positions) := by
  have hcoded : (positions.mapM fun p => (do return ((← beforeM keys p).elim 0 (· + 1), p)) : m _) =
      pure (positions.map fun p => ((before? keys p).elim 0 (· + 1), p)) := by
    apply mapM_eq_pure
    intro p hp
    rw [beforeM_eq (h p hp), pure_bind]
  rw [bucketsM, hcoded, pure_bind, splitBy_mergeSort_map fun p => (before? keys p).elim 0 (· + 1), ← buckets_def]

lemma ordered_comm (x y : ℕ) : ordered x y = ordered y x := by
  rcases Nat.lt_trichotomy x y with h | rfl | h
  · rw [ordered, ordered, if_pos h, if_neg (by omega)]
  · rfl
  · rw [ordered, ordered, if_neg (by omega), if_pos h]

lemma ordered_inj {x' y' : ℕ} (h : ordered x y = ordered x' y') : x = x' ∧ y = y' ∨ x = y' ∧ y = x' := by
  rw [ordered, ordered] at h
  split at h <;> split at h <;> obtain ⟨h₁, h₂⟩ := Prod.mk.inj h <;> omega

lemma exists_of_mem_pairsAcross (h : pair ∈ pairsAcross parts) :
    ∃ x ∈ parts.flatten, ∃ y ∈ parts.flatten, pair = ordered x y := by
  induction parts with
  | nil => exact absurd h List.not_mem_nil
  | cons part others ih =>
    rw [List.flatten_cons]
    rcases List.mem_append.mp h with h | h
    · obtain ⟨x, hx, h⟩ := List.mem_flatMap.mp h
      obtain ⟨y, hy, rfl⟩ := List.mem_map.mp h
      exact ⟨x, List.mem_append_left _ hx, y, List.mem_append_right _ hy, rfl⟩
    · obtain ⟨x, hx, y, hy, rfl⟩ := ih h
      exact ⟨x, List.mem_append_right _ hx, y, List.mem_append_right _ hy, rfl⟩

lemma nodup_pairsAcross (h : parts.flatten.Nodup) : (pairsAcross parts).Nodup := by
  induction parts with
  | nil => exact List.nodup_nil
  | cons part others ih =>
    rw [List.flatten_cons, List.nodup_append] at h
    obtain ⟨hpart, hothers, hne⟩ := h
    refine List.nodup_append.mpr ⟨List.nodup_flatMap.mpr ⟨fun x hx => ?_, ?_⟩, ih hothers, ?_⟩
    · refine hothers.map_on fun y hy y' hy' he => ?_
      rcases ordered_inj he with ⟨-, h⟩ | ⟨h, -⟩
      · exact h
      · exact absurd h (hne x hx y' hy')
    · refine hpart.imp_of_mem fun {x x'} hx hx' hxx => List.disjoint_left.mpr fun pair h h' => ?_
      obtain ⟨y, hy, rfl⟩ := List.mem_map.mp h
      obtain ⟨y', hy', he⟩ := List.mem_map.mp h'
      rcases ordered_inj he.symm with ⟨h, -⟩ | ⟨h, -⟩
      · exact hxx h
      · exact hne x hx y' hy' h
    · rintro pair h pair' h' rfl
      obtain ⟨x, hx, h⟩ := List.mem_flatMap.mp h
      obtain ⟨y, hy, rfl⟩ := List.mem_map.mp h
      obtain ⟨x', hx', y', hy', he⟩ := exists_of_mem_pairsAcross h'
      rcases ordered_inj he with ⟨h, -⟩ | ⟨h, -⟩
      · exact hne x hx x' hx' h
      · exact hne x hx y' hy' h

structure Separates (code : ℕ → ℕ) (parts : List (List ℕ)) : Prop where
  same : ∀ part ∈ parts, ∀ x ∈ part, ∀ y ∈ part, code x = code y
  differ : parts.Pairwise fun u v => ∀ x ∈ u, ∀ y ∈ v, code x ≠ code y

lemma Separates.mem_pairsAcross (h : Separates code parts) : pair ∈ pairsAcross parts ↔
    ∃ x ∈ parts.flatten, ∃ y ∈ parts.flatten, code x ≠ code y ∧ pair = ordered x y := by
  induction parts with
  | nil => simp [pairsAcross]
  | cons part others ih =>
    obtain ⟨hfirst, hothers⟩ := List.pairwise_cons.mp h.differ
    have ih := ih ⟨fun part hp => h.same part (List.mem_cons_of_mem _ hp), hothers⟩
    have hne : ∀ x ∈ part, ∀ y ∈ others.flatten, code x ≠ code y := by
      intro x hx y hy
      obtain ⟨v, hv, hy⟩ := List.mem_flatten.mp hy
      exact hfirst v hv x hx y hy
    simp only [pairsAcross, List.mem_append, List.mem_flatMap, List.mem_map, ih, List.flatten_cons]
    constructor
    · rintro (⟨x, hx, y, hy, rfl⟩ | ⟨x, hx, y, hy, hc, he⟩)
      · exact ⟨x, Or.inl hx, y, Or.inr hy, hne x hx y hy, rfl⟩
      · exact ⟨x, Or.inr hx, y, Or.inr hy, hc, he⟩
    · rintro ⟨x, hx | hx, y, hy | hy, hc, rfl⟩
      · exact absurd (h.same part List.mem_cons_self x hx y hy) hc
      · exact Or.inl ⟨x, hx, y, hy, rfl⟩
      · exact Or.inl ⟨y, hy, x, hx, ordered_comm y x⟩
      · exact Or.inr ⟨x, hx, y, hy, hc, rfl⟩

lemma Separates.nodup_flatten (h : Separates code parts) (hn : ∀ part ∈ parts, part.Nodup) : parts.flatten.Nodup := by
  refine List.nodup_flatten.mpr ⟨hn, h.differ.imp fun {u v} hne => List.disjoint_left.mpr fun x hx hy => ?_⟩
  exact hne x hx x hy rfl

lemma same_of_mem_splitBy {l part : List ℕ} (h : part ∈ l.splitBy fun x y => code x = code y) (hx : x ∈ part)
    (hy : y ∈ part) : code x = code y := by
  have hc := (List.isChain_of_mem_splitBy h).imp fun _ _ he => of_decide_eq_true he
  have : Trans (fun x y => code x = code y) (fun x y => code x = code y) fun x y => code x = code y :=
    ⟨Eq.trans⟩
  have : Std.Symm fun x y => code x = code y := ⟨fun _ _ => Eq.symm⟩
  by_cases hxy : x = y
  · rw [hxy]
  · exact hc.pairwise.forall hx hy hxy

lemma differ_of_sorted (hsame : ∀ part ∈ parts, ∀ x ∈ part, ∀ y ∈ part, code x = code y)
    (hle : parts.Pairwise fun u v => ∀ x ∈ u, ∀ y ∈ v, code x ≤ code y)
    (hne : parts.IsChain fun u v => ∃ hu hv, code (u.getLast hu) ≠ code (v.head hv)) :
    parts.Pairwise fun u v => ∀ x ∈ u, ∀ y ∈ v, code x ≠ code y := by
  induction parts with
  | nil => exact List.Pairwise.nil
  | cons u others ih =>
    obtain ⟨hu, hothers⟩ := List.pairwise_cons.mp hle
    refine List.pairwise_cons.mpr ⟨fun v hv x hx y hy => ?_,
      ih (fun part hp => hsame part (List.mem_cons_of_mem _ hp)) hothers hne.tail⟩
    obtain ⟨w, rest, rfl⟩ := List.exists_cons_of_ne_nil (List.ne_nil_of_mem hv)
    obtain ⟨hun, hwn, hd⟩ := (List.isChain_cons_cons.mp hne).1
    have hlast := hsame u List.mem_cons_self x hx _ (List.getLast_mem hun)
    have hlt := hu w List.mem_cons_self _ (List.getLast_mem hun) _ (List.head_mem hwn)
    have hwv : code (w.head hwn) ≤ code y := by
      rcases List.mem_cons.mp hv with rfl | hv
      · exact (hsame v (by simp) _ (List.head_mem hwn) y hy).le
      · exact (List.pairwise_cons.mp hothers).1 v hv _ (List.head_mem hwn) y hy
    omega

lemma separates_splitBy {l : List ℕ} (hs : l.Pairwise fun x y => code x ≤ code y) :
    Separates code (l.splitBy fun x y => code x = code y) := by
  have hsame : ∀ part ∈ l.splitBy fun x y => code x = code y,
      ∀ x ∈ part, ∀ y ∈ part, code x = code y :=
    fun part hp x hx y hy => same_of_mem_splitBy hp hx hy
  refine ⟨hsame, differ_of_sorted hsame ?_ ?_⟩
  · rw [← List.flatten_splitBy (fun x y => decide (code x = code y)) l, List.pairwise_flatten] at hs
    exact hs.2
  · refine (List.isChain_getLast_head_splitBy _ l).imp fun u v ⟨hu, hv, he⟩ => ⟨hu, hv, ?_⟩
    exact of_decide_eq_false he

lemma code_inj : (before? keys x).elim 0 (· + 1) = (before? keys y).elim 0 (· + 1) ↔
    before? keys x = before? keys y := by
  cases before? keys x <;> cases before? keys y <;> simp

abbrev SeparatesBefore (keys : Array ℕ) (parts : List (List ℕ)) : Prop :=
  Separates (fun p => (before? keys p).elim 0 (· + 1)) parts

lemma separates_buckets (keys : Array ℕ) (positions : List ℕ) : SeparatesBefore keys (buckets keys positions) :=
  buckets_def keys positions ▸
    separates_splitBy (pairwise_mergeSort_le (fun p => (before? keys p).elim 0 (· + 1)) positions)

lemma mem_flatten_buckets : x ∈ (buckets keys positions).flatten ↔ x ∈ positions := by
  rw [buckets_def, List.flatten_splitBy, List.mem_mergeSort]

lemma mem_maximalPairsIn (h : SeparatesBefore keys parts) :
    (a, b) ∈ maximalPairsIn keys length parts ↔
      a ∈ parts.flatten ∧ b ∈ parts.flatten ∧ a + length ≤ b ∧ before? keys a ≠ before? keys b ∧
        behind? keys length a ≠ behind? keys length b := by
  simp only [maximalPairsIn, List.mem_mergeSort, List.mem_filter, partsBehind, Bool.and_eq_true,
    decide_eq_true_eq, h.mem_pairsAcross, ne_eq, code_inj]
  constructor
  · rintro ⟨⟨x, hx, y, hy, hc, he⟩, hl, hb⟩
    rw [ordered] at he
    split at he
    · obtain ⟨rfl, rfl⟩ := Prod.mk.inj he
      exact ⟨hx, hy, hl, hc, hb⟩
    · obtain ⟨rfl, rfl⟩ := Prod.mk.inj he
      exact ⟨hy, hx, hl, fun h => hc h.symm, hb⟩
  · rintro ⟨ha, hb, hl, hc, hd⟩
    have hne : a ≠ b := fun h => hc (h ▸ rfl)
    refine ⟨⟨a, ha, b, hb, hc, ?_⟩, hl, hd⟩
    rw [ordered, if_pos (by omega)]

lemma mem_maximalPairs : (a, b) ∈ maximalPairs keys positions length ↔
    a ∈ positions ∧ b ∈ positions ∧ a + length ≤ b ∧ before? keys a ≠ before? keys b ∧
      behind? keys length a ≠ behind? keys length b := by
  rw [maximalPairs, mem_maximalPairsIn (separates_buckets keys positions), mem_flatten_buckets, mem_flatten_buckets]

lemma pairLE_iff {p q : ℕ × ℕ} : pairLE p q = true ↔ p.1 < q.1 ∨ p.1 = q.1 ∧ p.2 ≤ q.2 := by
  simp [pairLE]

lemma nodup_maximalPairsIn (h : parts.flatten.Nodup) : (maximalPairsIn keys length parts).Nodup :=
  (List.mergeSort_perm _ _).nodup_iff.mpr ((nodup_pairsAcross h).filter _)

lemma nodup_flatten_buckets (h : positions.Nodup) : (buckets keys positions).flatten.Nodup := by
  rw [buckets_def, List.flatten_splitBy]
  exact (List.mergeSort_perm _ _).nodup_iff.mpr h

lemma nodup_maximalPairs (h : positions.Nodup) : (maximalPairs keys positions length).Nodup :=
  nodup_maximalPairsIn (nodup_flatten_buckets h)

lemma pairwise_maximalPairsIn (keys : Array ℕ) (length : ℕ) (parts : List (List ℕ)) :
    (maximalPairsIn keys length parts).Pairwise fun p q => pairLE p q = true := by
  refine List.pairwise_mergeSort (fun p q r hpq hqr => ?_) (fun p q => ?_) _
  · rw [pairLE_iff] at hpq hqr ⊢
    omega
  · rw [Bool.or_eq_true, pairLE_iff, pairLE_iff]
    omega

lemma pairLE_antisymm {p q : ℕ × ℕ} (hpq : pairLE p q = true) (hqp : pairLE q p = true) : p = q := by
  rw [pairLE_iff] at hpq hqp
  exact Prod.ext (by omega) (by omega)

lemma maximalPairsIn_eq {pairs : List (ℕ × ℕ)} (hc : SeparatesBefore keys parts) (hn : parts.flatten.Nodup)
    (hp : pairs.Nodup) (hs : pairs.Pairwise fun p q => pairLE p q = true)
    (hm : ∀ a b, (a, b) ∈ pairs ↔ a ∈ parts.flatten ∧ b ∈ parts.flatten ∧ a + length ≤ b ∧
      before? keys a ≠ before? keys b ∧ behind? keys length a ≠ behind? keys length b) :
    maximalPairsIn keys length parts = pairs := by
  have hperm : (maximalPairsIn keys length parts).Perm pairs := by
    refine (List.perm_ext_iff_of_nodup (nodup_maximalPairsIn hn) hp).mpr ?_
    rintro ⟨a, b⟩
    rw [hm, mem_maximalPairsIn hc]
  exact hperm.eq_of_pairwise (fun p q _ _ => pairLE_antisymm) (pairwise_maximalPairsIn keys length _) hs

lemma maximalPairs_eq {pairs : List (ℕ × ℕ)} (hn : positions.Nodup) (hp : pairs.Nodup)
    (hs : pairs.Pairwise fun p q => pairLE p q = true)
    (hm : ∀ a b, (a, b) ∈ pairs ↔ a ∈ positions ∧ b ∈ positions ∧ a + length ≤ b ∧
      before? keys a ≠ before? keys b ∧ behind? keys length a ≠ behind? keys length b) :
    maximalPairs keys positions length = pairs := by
  apply maximalPairsIn_eq (separates_buckets keys positions) (nodup_flatten_buckets hn) hp hs
  intro a b
  rw [hm, mem_flatten_buckets, mem_flatten_buckets]

/-! ### The order of the parts -/

lemma flatMap_ordered_comm (s t : List ℕ) :
    (s.flatMap fun x => t.map (ordered x)).Perm (t.flatMap fun y => s.map (ordered y)) := by
  induction s with
  | nil => simp
  | cons x s ih =>
    have hcomm : t.map (ordered x) = t.map fun y => ordered y x := List.map_congr_left fun y _ => ordered_comm x y
    rw [List.flatMap_cons, hcomm]
    exact (ih.append_left _).trans (List.map_append_flatMap_perm t _ _)

lemma pairsAcross_cons_cons (u v : List ℕ) (others : List (List ℕ)) :
    (pairsAcross (u :: v :: others)).Perm
      ((u.flatMap fun x => v.map (ordered x)) ++ ((u.flatMap fun x => others.flatten.map (ordered x)) ++
        ((v.flatMap fun x => others.flatten.map (ordered x)) ++ pairsAcross others))) := by
  simp only [pairsAcross, List.flatten_cons, List.map_append]
  refine ((List.flatMap_append_perm u _ _).symm.append_right _).trans (.of_eq ?_)
  exact List.append_assoc _ _ _

lemma pairsAcross_perm {parts' : List (List ℕ)} (h : parts.Perm parts') :
    (pairsAcross parts).Perm (pairsAcross parts') := by
  induction h with
  | nil => exact .refl _
  | cons part h ih =>
    exact (List.Perm.flatMap_left part fun x _ => h.flatten.map _).append ih
  | swap u v others =>
    refine (pairsAcross_cons_cons v u others).trans (.trans ?_ (pairsAcross_cons_cons u v others).symm)
    refine (flatMap_ordered_comm v u).append ?_
    rw [← List.append_assoc, ← List.append_assoc]
    exact List.perm_append_comm.append_right _
  | trans _ _ ih ih' => exact ih.trans ih'

lemma maximalPairsIn_perm {parts' : List (List ℕ)} (h : parts.Perm parts') (keys : Array ℕ) (length : ℕ) :
    maximalPairsIn keys length parts = maximalPairsIn keys length parts' := by
  have hperm := (pairsAcross_perm h).filter (partsBehind keys length)
  refine List.Perm.eq_of_pairwise (fun p q _ _ => pairLE_antisymm) (pairwise_maximalPairsIn keys length parts)
    (pairwise_maximalPairsIn keys length parts') ?_
  exact (List.mergeSort_perm _ _).trans (hperm.trans (List.mergeSort_perm _ _).symm)

end CodeClones.Duplication
