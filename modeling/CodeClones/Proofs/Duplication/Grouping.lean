import Mathlib.Data.List.Nodup
import Mathlib.Data.List.ProdSigma
import Std.Data.HashMap
import CodeClones.Proofs.Duplication.Pairs

/-! A plain search for maximal pairs tries all pairs of positions. Positions that a table groups by the elements
before them have the same maximal pairs, in whichever order the table lists its groups. -/

namespace CodeClones.Duplication

variable {keys : Array ℕ} {positions part : List ℕ} {length a b p x : ℕ} {key : Option ℕ}
  {entries : List (Option ℕ × List ℕ)}

/-! ### Pairs by trying all -/

def HaveSame (keys : Array ℕ) (i j : ℕ) : Prop := ∃ (_ : i < keys.size) (_ : j < keys.size), keys[i] = keys[j]

def SameBefore (keys : Array ℕ) (a b : ℕ) : Prop := a = 0 ∧ b = 0 ∨ 0 < a ∧ 0 < b ∧ HaveSame keys (a - 1) (b - 1)

def SameBehind (keys : Array ℕ) (length a b : ℕ) : Prop :=
  a + length = keys.size ∧ b + length = keys.size ∨ HaveSame keys (a + length) (b + length)

def AreMaximal (keys : Array ℕ) (length a b : ℕ) : Prop :=
  a + length ≤ b ∧ ¬ SameBefore keys a b ∧ ¬ SameBehind keys length a b

instance : Decidable (HaveSame keys a b) := inferInstanceAs (Decidable (∃ _ _, _))

instance : Decidable (SameBefore keys a b) := inferInstanceAs (Decidable (_ ∨ _))

instance : Decidable (SameBehind keys length a b) := inferInstanceAs (Decidable (_ ∨ _))

instance : Decidable (AreMaximal keys length a b) := inferInstanceAs (Decidable (_ ∧ _))

def plainPairs (keys : Array ℕ) (positions : List ℕ) (length : ℕ) : List (ℕ × ℕ) :=
  (positions ×ˢ positions).filter fun pair => AreMaximal keys length pair.1 pair.2

structure ListsMaximalPairs (keys : Array ℕ) (positions : List ℕ) (length : ℕ) (pairs : List (ℕ × ℕ)) : Prop where
  ascending : pairs.Pairwise fun p q => p.1 < q.1 ∨ p.1 = q.1 ∧ p.2 < q.2
  mem_iff : ∀ a b, (a, b) ∈ pairs ↔ a ∈ positions ∧ b ∈ positions ∧ AreMaximal keys length a b

lemma haveSame_iff (h : a < keys.size ∨ b < keys.size) : HaveSame keys a b ↔ keys[a]? = keys[b]? := by
  constructor
  · rintro ⟨ha, hb, he⟩
    rw [Array.getElem?_eq_getElem ha, Array.getElem?_eq_getElem hb, he]
  · intro he
    have ha : a < keys.size := by
      by_contra hn
      have hb := h.resolve_left hn
      rw [Array.getElem?_eq_none (by omega), Array.getElem?_eq_getElem hb] at he
      exact absurd he (by simp)
    rw [Array.getElem?_eq_getElem ha] at he
    obtain ⟨hb, he⟩ := Array.getElem?_eq_some_iff.mp he.symm
    exact ⟨ha, hb, he.symm⟩

lemma sameBefore_iff (ha : a ≤ keys.size) (hb : b ≤ keys.size) :
    SameBefore keys a b ↔ before? keys a = before? keys b := by
  cases a with
  | zero =>
    cases b with
    | zero => simp [SameBefore]
    | succ b =>
      have hs : keys[b]? = some keys[b] := Array.getElem?_eq_getElem hb
      simp [SameBefore, hs]
  | succ a =>
    cases b with
    | zero =>
      have hs : keys[a]? = some keys[a] := Array.getElem?_eq_getElem ha
      simp [SameBefore, hs]
    | succ b => simp [SameBefore, haveSame_iff (Or.inl ha)]

lemma sameBehind_iff (ha : a + length ≤ keys.size) (hb : b + length ≤ keys.size) :
    SameBehind keys length a b ↔ behind? keys length a = behind? keys length b := by
  rw [SameBehind, behind?, behind?]
  by_cases hend : a + length = keys.size ∧ b + length = keys.size
  · rw [hend.1, hend.2]
    exact iff_of_true (Or.inl ⟨rfl, rfl⟩) rfl
  · rw [or_iff_right hend]
    exact haveSame_iff (by omega)

lemma pairwise_plainPairs (hs : positions.Pairwise (· < ·)) :
    (plainPairs keys positions length).Pairwise fun p q => p.1 < q.1 ∨ p.1 = q.1 ∧ p.2 < q.2 := by
  apply List.Pairwise.filter
  apply List.pairwise_flatMap.mpr
  constructor
  · intro a _
    exact List.pairwise_map.mpr (hs.imp fun h => Or.inr ⟨rfl, h⟩)
  · apply hs.imp
    intro a b hab p hp q hq
    obtain ⟨x, -, rfl⟩ := List.mem_map.mp hp
    obtain ⟨y, -, rfl⟩ := List.mem_map.mp hq
    exact Or.inl hab

lemma mem_plainPairs :
    (a, b) ∈ plainPairs keys positions length ↔ a ∈ positions ∧ b ∈ positions ∧ AreMaximal keys length a b := by
  rw [plainPairs, List.mem_filter, List.mem_product, decide_eq_true_eq, and_assoc]

/-! ### Groups of positions -/

abbrev Groups := Std.HashMap (Option ℕ) (List ℕ)

def Groups.add (groups : Groups) (key : Option ℕ) (p : ℕ) : Groups :=
  groups.alter key fun part => some (part.getD [] ++ [p])

def groupsOf (keys : Array ℕ) (positions : List ℕ) : Groups :=
  positions.foldl (fun groups p => groups.add (before? keys p) p) ∅

def groupsOf? (keys : Array ℕ) (positions : List ℕ) : Option Groups :=
  positions.foldlM (fun groups p => do return groups.add (← beforeM keys p) p) ∅

/-- The search through the groups that a table lists in an order of its own. -/
def maximalPairsBy? (listing : Groups → List (Option ℕ × List ℕ)) (keys : Array ℕ) (positions : List ℕ) (length : ℕ) :
    Option (List (ℕ × ℕ)) := do
  return maximalPairsIn keys length ((listing (← groupsOf? keys positions)).map Prod.snd)

lemma groupsOf?_eq (h : ∀ p ∈ positions, p ≤ keys.size) :
    groupsOf? keys positions = some (groupsOf keys positions) := by
  apply foldlM_eq_pure
  intro p hp groups
  rw [beforeM_eq (h p hp)]
  rfl

lemma getD_add (groups : Groups) (k : Option ℕ) : (groups.add key p).getD k [] =
    if key = k then groups.getD k [] ++ [p] else groups.getD k [] := by
  rw [Groups.add, Std.HashMap.getD_alter]
  simp only [beq_iff_eq]
  split
  · next h => rw [h, Option.getD_some, Std.HashMap.getD_eq_getD_getElem?]
  · rfl

lemma getD_groupsOf (keys : Array ℕ) (positions : List ℕ) (key : Option ℕ) :
    (groupsOf keys positions).getD key [] = positions.filter (before? keys · = key) := by
  induction positions using List.reverseRecOn with
  | nil => simp [groupsOf]
  | append_singleton positions p ih =>
    have hconcat : groupsOf keys (positions ++ [p]) = (groupsOf keys positions).add (before? keys p) p := by
      simp [groupsOf]
    rw [hconcat, getD_add, ih, List.filter_append, List.filter_singleton]
    by_cases hk : before? keys p = key
    · simp [hk]
    · simp [hk]

section

variable (he : entries.Perm (groupsOf keys positions).toList)

include he

lemma eq_filter_of_mem (h : (key, part) ∈ entries) : part = positions.filter (before? keys · = key) := by
  have hsome := Std.HashMap.mem_toList_iff_getElem?_eq_some.mp (he.mem_iff.mp h)
  rw [← getD_groupsOf, Std.HashMap.getD_eq_getD_getElem?, hsome, Option.getD_some]

lemma before?_of_mem (h : (key, part) ∈ entries) (hx : x ∈ part) : before? keys x = key := by
  rw [eq_filter_of_mem he h] at hx
  exact of_decide_eq_true (List.mem_filter.mp hx).2

lemma exists_entry (hx : x ∈ positions) : ∃ part, (before? keys x, part) ∈ entries ∧ x ∈ part := by
  have hmem : x ∈ (groupsOf keys positions).getD (before? keys x) [] := by
    rw [getD_groupsOf]
    exact List.mem_filter.mpr ⟨hx, decide_eq_true rfl⟩
  rw [Std.HashMap.getD_eq_getD_getElem?] at hmem
  cases hg : (groupsOf keys positions)[before? keys x]? with
  | none =>
    rw [hg] at hmem
    exact absurd hmem List.not_mem_nil
  | some part =>
    rw [hg] at hmem
    exact ⟨part, he.mem_iff.mpr (Std.HashMap.mem_toList_iff_getElem?_eq_some.mpr hg), hmem⟩

lemma separates_entries : SeparatesBefore keys (entries.map Prod.snd) := by
  have hkeys : entries.Pairwise fun e e' => e.1 ≠ e'.1 := by
    apply List.pairwise_map.mp
    apply (he.map Prod.fst).nodup_iff.mpr
    rw [Std.HashMap.map_fst_toList_eq_keys]
    exact Std.HashMap.nodup_keys
  constructor
  · intro part hp x hx y hy
    obtain ⟨⟨key, part⟩, hm, rfl⟩ := List.mem_map.mp hp
    rw [code_inj, before?_of_mem he hm hx, before?_of_mem he hm hy]
  · apply List.pairwise_map.mpr
    apply hkeys.imp_of_mem
    intro e e' hm hm' hne x hx y hy
    rw [ne_eq, code_inj, before?_of_mem he hm hx, before?_of_mem he hm' hy]
    exact hne

lemma mem_flatten_entries : x ∈ (entries.map Prod.snd).flatten ↔ x ∈ positions := by
  constructor
  · intro hx
    obtain ⟨part, hp, hx⟩ := List.mem_flatten.mp hx
    obtain ⟨⟨key, part⟩, hm, rfl⟩ := List.mem_map.mp hp
    rw [eq_filter_of_mem he hm] at hx
    exact List.mem_of_mem_filter hx
  · intro hx
    obtain ⟨part, hm, hx⟩ := exists_entry he hx
    exact List.mem_flatten.mpr ⟨part, List.mem_map.mpr ⟨_, hm, rfl⟩, hx⟩

lemma nodup_flatten_entries (hn : positions.Nodup) : (entries.map Prod.snd).flatten.Nodup := by
  apply (separates_entries he).nodup_flatten
  intro part hp
  obtain ⟨⟨key, part⟩, hm, rfl⟩ := List.mem_map.mp hp
  rw [eq_filter_of_mem he hm]
  exact hn.filter _

end

section

variable (hs : positions.Pairwise (· < ·)) (hr : ∀ p ∈ positions, p + length ≤ keys.size)

include hs

lemma nodup_plainPairs : (plainPairs keys positions length).Nodup := by
  apply (pairwise_plainPairs hs).imp
  rintro p q hpq rfl
  omega

lemma sorted_plainPairs : (plainPairs keys positions length).Pairwise fun p q => pairLE p q = true := by
  apply (pairwise_plainPairs hs).imp
  intro p q hpq
  rw [pairLE_iff]
  omega

include hr

lemma maximalPairsIn_eq_plainPairs {parts : List (List ℕ)} (hc : SeparatesBefore keys parts)
    (hn : parts.flatten.Nodup) (hm : ∀ x, x ∈ parts.flatten ↔ x ∈ positions) :
    maximalPairsIn keys length parts = plainPairs keys positions length := by
  apply maximalPairsIn_eq hc hn (nodup_plainPairs hs) (sorted_plainPairs hs)
  intro a b
  rw [mem_plainPairs, hm, hm]
  apply and_congr_right
  intro ha
  apply and_congr_right
  intro hb
  have hra := hr a ha
  have hrb := hr b hb
  rw [AreMaximal, sameBefore_iff (by omega) (by omega), sameBehind_iff hra hrb]

lemma maximalPairsBy?_eq {listing : Groups → List (Option ℕ × List ℕ)}
    (hl : ∀ groups, (listing groups).Perm groups.toList) :
    maximalPairsBy? listing keys positions length = some (plainPairs keys positions length) := by
  have hgroups : groupsOf? keys positions = some (groupsOf keys positions) := by
    apply groupsOf?_eq
    intro p hp
    have := hr p hp
    omega
  have he := hl (groupsOf keys positions)
  have hpairs := maximalPairsIn_eq_plainPairs hs hr (separates_entries he) (nodup_flatten_entries he hs.nodup)
    fun x => mem_flatten_entries he
  rw [maximalPairsBy?, hgroups, Option.bind_eq_bind, Option.bind_some, hpairs]
  rfl

/-- The search through groups finds what the plain search finds, in whichever order a table lists its groups. -/
theorem maximalPairs_eq_plainPairs : ListsMaximalPairs keys positions length (maximalPairs keys positions length) ∧
    maximalPairs keys positions length = plainPairs keys positions length ∧
    ∀ listing : Groups → List (Option ℕ × List ℕ), (∀ groups, (listing groups).Perm groups.toList) →
      maximalPairsBy? listing keys positions length = some (maximalPairs keys positions length) := by
  have hplain : maximalPairs keys positions length = plainPairs keys positions length :=
    maximalPairsIn_eq_plainPairs hs hr (separates_buckets keys positions) (nodup_flatten_buckets hs.nodup)
      fun x => mem_flatten_buckets
  rw [hplain]
  exact ⟨⟨pairwise_plainPairs hs, fun a b => mem_plainPairs⟩, rfl, fun listing hl => maximalPairsBy?_eq hs hr hl⟩

end

theorem maximalPairs_eq_plainPairs_ends : [0, 3, 6].Pairwise (· < ·) ∧
    (∀ p ∈ [0, 3, 6], p + 1 ≤ #[9, 8, 7, 9, 5, 7, 9].size) ∧
    maximalPairs #[9, 8, 7, 9, 5, 7, 9] [0, 3, 6] 1 = [(0, 3), (0, 6)] ∧
    ListsMaximalPairs #[9, 8, 7, 9, 5, 7, 9] [0, 3, 6] 1 [(0, 3), (0, 6)] ∧
    maximalPairsBy? (·.toList) #[9, 8, 7, 9, 5, 7, 9] [0, 3, 6] 1 = some [(0, 3), (0, 6)] ∧
    maximalPairsBy? (·.toList.reverse) #[9, 8, 7, 9, 5, 7, 9] [0, 3, 6] 1 = some [(0, 3), (0, 6)] := by
  have hs : [0, 3, 6].Pairwise (· < ·) := by decide
  have hr : ∀ p ∈ [0, 3, 6], p + 1 ≤ #[9, 8, 7, 9, 5, 7, 9].size := by decide
  have hplain : plainPairs #[9, 8, 7, 9, 5, 7, 9] [0, 3, 6] 1 = [(0, 3), (0, 6)] := by decide
  obtain ⟨hlists, heq, hlistings⟩ := maximalPairs_eq_plainPairs hs hr
  rw [heq, hplain] at hlists hlistings
  refine ⟨hs, hr, heq.trans hplain, hlists, hlistings _ ?_, hlistings _ ?_⟩
  · exact fun groups => .refl _
  · exact fun groups => List.reverse_perm _

end CodeClones.Duplication
