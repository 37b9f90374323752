import CodeClones.Duplication.Resolve
import CodeClones.Proofs.Duplication.Chain
import CodeClones.Proofs.Insertion.Spread

/-! What is made of a repeat if its runs move: the same pairs, chains and hash. -/

namespace CodeClones

open Duplication SuffixIndex

variable {keys keys' : Array ℕ} {place : ℕ → ℕ} {length p q : ℕ} {r : Repeat} {positions kept : List ℕ}

/-! ### Chains -/

section

variable (hmono : StrictMono place)

include hmono

lemma add_le_place_iff (hp : place (p + length) = place p + length) :
    place p + length ≤ place q ↔ p + length ≤ q := by
  rw [← hp, hmono.le_iff_le]

lemma all_head?_map_left (hkept : ∀ p ∈ kept, place (p + length) = place p + length) (q : ℕ) :
    (kept.map place).head?.all (· + length ≤ place q) = kept.head?.all (· + length ≤ q) := by
  cases kept with
  | nil => rfl
  | cons p kept => exact decide_eq_decide.mpr (add_le_place_iff hmono (hkept p List.mem_cons_self))

lemma all_head?_map_right (hp : place (p + length) = place p + length) (forced : List ℕ) :
    (forced.map place).head?.all (place p + length ≤ ·) = forced.head?.all (p + length ≤ ·) := by
  cases forced with
  | nil => rfl
  | cons q forced => exact decide_eq_decide.mpr (add_le_place_iff hmono hp)

lemma chainOnto_map (hkept : ∀ p ∈ kept, place (p + length) = place p + length)
    (hp : ∀ p ∈ positions, place (p + length) = place p + length) (forced : List ℕ) :
    chainOnto length (kept.map place) (forced.map place) (positions.map place) =
      (chainOnto length kept forced positions).map place := by
  induction positions generalizing kept forced with
  | nil => rw [List.map_nil, chainOnto, chainOnto, List.map_reverse]
  | cons p following ih =>
    obtain ⟨hp, hfollowing⟩ := List.forall_mem_cons.mp hp
    have hforced : (forced.map place).head? = some (place p) ↔ forced.head? = some p := by
      rw [List.head?_map, ← Option.map_some, (Option.map_injective hmono.injective).eq_iff]
    rw [List.map_cons, chainOnto, chainOnto]
    simp only [hforced, all_head?_map_left hmono hkept, all_head?_map_right hmono hp]
    split
    · rw [← List.map_cons, ← List.map_tail]
      exact ih (List.forall_mem_cons.mpr ⟨hp, hkept⟩) hfollowing _
    · split
      · rw [← List.map_cons]
        exact ih (List.forall_mem_cons.mpr ⟨hp, hkept⟩) hfollowing _
      · exact ih hkept hfollowing _

lemma holds_map (chain : List ℕ) (pair : ℕ × ℕ) :
    holds (chain.map place) (pair.map place place) = holds chain pair := by
  rw [Bool.eq_iff_iff, holds_iff, holds_iff]
  exact and_congr (List.mem_map_of_injective hmono.injective) (List.mem_map_of_injective hmono.injective)

lemma coverPairs_map (hp : ∀ p ∈ positions, place (p + length) = place p + length) (pairs : List (ℕ × ℕ)) :
    coverPairs (positions.map place) length (pairs.map (Prod.map place place)) =
      (coverPairs positions length pairs).map (List.map place) := by
  have hstep : ∀ (chains : List (List ℕ)) (pair : ℕ × ℕ),
      addChain (positions.map place) length (chains.map (List.map place)) (pair.map place place) =
        (addChain positions length chains pair).map (List.map place) := by
    intro chains pair
    have hany : (chains.map (List.map place)).any (holds · (pair.map place place)) = chains.any (holds · pair) := by
      rw [List.any_map]
      exact congrArg (chains.any ·) (funext fun chain => holds_map hmono chain pair)
    have hchain : chainThrough (positions.map place) length (pair.map place place) =
        (chainThrough positions length pair).map place :=
      chainOnto_map hmono (List.forall_mem_nil _) hp [pair.1, pair.2]
    rw [addChain, addChain, hany, hchain]
    split
    · rfl
    · rw [List.map_append, List.map_singleton]
  have hfold : ∀ chains : List (List ℕ), (pairs.map (Prod.map place place)).foldl
      (addChain (positions.map place) length) (chains.map (List.map place)) =
        (pairs.foldl (addChain positions length) chains).map (List.map place) := by
    induction pairs with
    | nil => exact fun chains => rfl
    | cons pair pairs ih =>
      intro chains
      rw [List.map_cons, List.foldl_cons, List.foldl_cons, hstep, ih]
  exact hfold []

lemma hasDisjoint_map (hp : ∀ p ∈ positions, place (p + length) = place p + length) :
    hasDisjoint length (positions.map place) = hasDisjoint length positions := by
  cases positions with
  | nil => rfl
  | cons p following =>
    obtain ⟨q, hq⟩ := Option.isSome_iff_exists.mp (List.getLast?_isSome.mpr (List.cons_ne_nil p following))
    have hle := add_le_place_iff (q := q) hmono (hp p List.mem_cons_self)
    rw [hasDisjoint_def, hasDisjoint_def, List.getLast?_map, List.head?_map, hq, List.head?_cons, decide_eq_decide]
    simp only [Option.map_some, Option.getD_some]
    omega

end

namespace Spreads

variable (h : Spreads keys keys' place)

include h

lemma maximalPairs_eq (hpos : 0 < r.length) (hr : r.IsMaximal keys) :
    maximalPairs keys' (r.move place).positions r.length =
      (maximalPairs keys r.positions r.length).map (Prod.map place place) := by
  have hbounds := h.bounds_of_isMaximal hpos hr
  have hn : r.positions.Nodup := hr.sorted.imp Nat.ne_of_lt
  have hinj := h.mono.injective
  refine Duplication.maximalPairs_eq (hn.map hinj) ((nodup_maximalPairs hn).map (hinj.prodMap hinj)) ?_ fun a' b' => ?_
  · have hsorted := pairwise_maximalPairsIn keys r.length (buckets keys r.positions)
    refine List.pairwise_map.mpr (hsorted.imp fun {p q} hpq => ?_)
    rw [pairLE_iff] at hpq ⊢
    rcases hpq with hlt | ⟨he, hle⟩
    · exact .inl (h.mono hlt)
    · exact .inr ⟨congrArg place he, h.mono.monotone hle⟩
  have hiff : ∀ a ∈ r.positions, ∀ b ∈ r.positions, a + r.length ≤ b →
      ((before? keys' (place a) ≠ before? keys' (place b) ∧
          behind? keys' r.length (place a) ≠ behind? keys' r.length (place b)) ↔
        before? keys a ≠ before? keys b ∧ behind? keys r.length a ≠ behind? keys r.length b) := by
    intro a ha b hb hle
    obtain ⟨hla, hma⟩ := hbounds a ha
    obtain ⟨hlb, hmb⟩ := hbounds b hb
    rw [behind?, behind?, ← hma, ← hmb]
    exact and_congr (not_congr (h.before?_eq_iff (by omega) (by omega) (by omega)))
      (not_congr (h.key_eq_iff (by omega) hla hlb))
  simp only [List.mem_map, Prod.exists, Prod.map_apply, Prod.mk.injEq, mem_maximalPairs]
  constructor
  · rintro ⟨a, b, ⟨ha, hb, hle, hab⟩, rfl, rfl⟩
    exact ⟨List.mem_map_of_mem ha, List.mem_map_of_mem hb, (add_le_place_iff h.mono (hbounds a ha).2).mpr hle,
      (hiff a ha b hb hle).mpr hab⟩
  · rintro ⟨ha', hb', hle, hab⟩
    obtain ⟨a, ha, rfl⟩ := List.mem_map.mp ha'
    obtain ⟨b, hb, rfl⟩ := List.mem_map.mp hb'
    have hle := (add_le_place_iff h.mono (hbounds a ha).2).mp hle
    exact ⟨a, b, ⟨ha, hb, hle, (hiff a ha b hb hle).mp hab⟩, rfl, rfl⟩

lemma extract_eq (hpos : 0 < r.length) (hr : r.IsMaximal keys) (hp : p ∈ r.positions) :
    keys'.extract (place p) (place p + r.length) = keys.extract p (p + r.length) := by
  obtain ⟨q, hq, hne⟩ := hr.exists_ne p
  have hocc := (Repeat.occurs_iff hpos hp).mp hr.occurs
  obtain ⟨hpl, -⟩ := (hocc p).mp hp
  obtain ⟨hql, ha⟩ := (hocc q).mp hq
  have hplace : ∀ i ≤ r.length, place (p + i) = place p + i := fun i => h.place_add hne (by omega) (by omega) ha
  have hkeys : ∀ i < r.length, keys'[place p + i]? = keys[p + i]? := by
    intro i hi
    rw [← hplace i hi.le]
    exact (h.key (p + i) (by omega)).resolve_left fun hs => not_isSingle (by omega) (ha i hi) hs.1
  have hsize : place p + r.length ≤ keys'.size := by
    have hlast := hplace (r.length - 1) (by omega)
    have := h.lt (p + (r.length - 1)) (by omega)
    omega
  refine Array.ext_getElem? fun i => ?_
  rw [Array.getElem?_extract, Array.getElem?_extract, Nat.min_eq_left hsize, Nat.min_eq_left hpl,
    Nat.add_sub_cancel_left, Nat.add_sub_cancel_left]
  split
  · next hi => exact hkeys i hi
  · rfl

end Spreads

end CodeClones
