import Mathlib.Data.Set.List
import Mathlib.Order.Monotone.Basic
import CodeClones.Proofs.Duplication.Pairs
import CodeClones.Proofs.Repeat.Maximal

/-! A sequence of keys with others spread into it. If those occur nowhere else, all runs that occur more than
once stay as they are and only move. -/

namespace CodeClones

open Duplication SuffixIndex

variable {keys keys' : Array ℕ} {place : ℕ → ℕ} {length p q : ℕ} {r : Repeat}

def IsSingle (keys : Array ℕ) (p : ℕ) : Prop := ∀ q, keys[q]? = keys[p]? → q = p

/-- Single keys are put into a sequence, so that each position moves to its `place`. Single keys may change. -/
structure Spreads (keys keys' : Array ℕ) (place : ℕ → ℕ) : Prop where
  mono : StrictMono place
  lt : ∀ p < keys.size, place p < keys'.size
  key : ∀ p < keys.size, IsSingle keys p ∧ IsSingle keys' (place p) ∨ keys'[place p]? = keys[p]?
  next : ∀ p < keys.size, IsSingle keys p ∨ place (p + 1) = place p + 1
  new : ∀ q < keys'.size, IsSingle keys' q ∨ ∃ p < keys.size, place p = q

lemma not_isSingle (hne : p ≠ q) (h : keys[p]? = keys[q]?) : ¬ IsSingle keys p := fun hs => hne (hs q h.symm).symm

lemma IsSingle.ne (h : IsSingle keys p) (hne : p ≠ q) : keys[p]? ≠ keys[q]? := fun he => not_isSingle hne he h

lemma before?_zero_ne (hq : 0 < q) (hl : q ≤ keys.size) : before? keys 0 ≠ before? keys q := fun he =>
  hq.ne' (before?_eq_none he.symm hl)

lemma before?_ne_of_isSingle (hp : p < keys.size) (h : IsSingle keys p) (hne : q ≠ p + 1) :
    before? keys (p + 1) ≠ before? keys q := by
  cases q with
  | zero =>
    change keys[p]? ≠ none
    rw [Array.getElem?_eq_getElem hp]
    simp
  | succ q => exact h.ne (by omega)

lemma exists_common_iff {positions : List ℕ} {u : ℕ → Option ℕ} (h2 : ∃ p ∈ positions, ∃ q ∈ positions, p ≠ q)
    (hnone : ∀ p ∈ positions, ∀ q ∈ positions, u p = none → u q = none → p = q) :
    (∃ n, ∀ p ∈ positions, u p = some n) ↔ ∀ p ∈ positions, ∀ q ∈ positions, p ≠ q → u p = u q := by
  constructor
  · rintro ⟨n, hn⟩ p hp q hq -
    rw [hn p hp, hn q hq]
  · intro hall
    obtain ⟨p, hp, q, hq, hne⟩ := h2
    have hpq := hall p hp q hq hne
    obtain ⟨n, hn⟩ := Option.ne_none_iff_exists'.mp fun hno => hne (hnone p hp q hq hno (hpq ▸ hno))
    refine ⟨n, fun s hs => ?_⟩
    by_cases hsp : s = p
    · rw [hsp, hn]
    · rw [hall s hs p hp hsp, hn]

def Repeat.move (place : ℕ → ℕ) (r : Repeat) : Repeat := { r with positions := r.positions.map place }

namespace Spreads

variable (h : Spreads keys keys' place)

include h

lemma isSingle_or_eq_none (hs : keys.size ≤ p) : IsSingle keys' (place p) ∨ keys'[place p]? = none := by
  rcases Nat.lt_or_ge (place p) keys'.size with hlt | hge
  · refine .inl ((h.new _ hlt).resolve_right ?_)
    rintro ⟨q, hq, he⟩
    have := h.mono.injective he
    omega
  · exact .inr (Array.getElem?_eq_none hge)

lemma key_eq_iff (hne : p ≠ q) (hp : p ≤ keys.size) (hq : q ≤ keys.size) :
    keys'[place p]? = keys'[place q]? ↔ keys[p]? = keys[q]? := by
  have hne' : place p ≠ place q := h.mono.injective.ne hne
  -- The end of the sequence is like no key.
  have hend : ∀ {q}, q < keys.size → place keys.size ≠ place q → keys'[place keys.size]? ≠ keys'[place q]? := by
    intro q hq hne
    rcases h.isSingle_or_eq_none le_rfl with hs | hs
    · exact hs.ne hne
    · rw [hs, Array.getElem?_eq_getElem (h.lt q hq)]
      simp
  rcases Nat.lt_or_eq_of_le hp with hp | rfl
  · rcases Nat.lt_or_eq_of_le hq with hq | rfl
    · rcases h.key p hp with ⟨hs, hs'⟩ | hkp
      · exact iff_of_false (hs'.ne hne') (hs.ne hne)
      · rcases h.key q hq with ⟨hs, hs'⟩ | hkq
        · exact iff_of_false (hs'.ne hne'.symm).symm (hs.ne hne.symm).symm
        · rw [hkp, hkq]
    · refine iff_of_false (hend hp hne'.symm).symm ?_
      rw [Array.getElem?_eq_getElem hp]
      simp
  · refine iff_of_false (hend (by omega) hne') ?_
    rw [Array.getElem?_eq_getElem (by omega : q < keys.size)]
    simp

lemma place_add (hne : p ≠ q) (hp : p ≤ keys.size) (hq : q ≤ keys.size) (ha : Agree keys length p q) {n : ℕ}
    (hn : n ≤ length) : place (p + n) = place p + n := by
  induction n with
  | zero => rfl
  | succ n ih =>
    have hle := (ha.both_add_le hne hp hq).1
    have hnot : ¬ IsSingle keys (p + n) := not_isSingle (by omega) (ha n hn)
    rw [← Nat.add_assoc, (h.next (p + n) (by omega)).resolve_left hnot, ih (by omega), Nat.add_assoc]

lemma agree_iff (hne : p ≠ q) (hp : p ≤ keys.size) (hq : q ≤ keys.size) :
    Agree keys' length (place p) (place q) ↔ Agree keys length p q := by
  have hkey : ∀ {n}, Agree keys n p q →
      (keys'[place p + n]? = keys'[place q + n]? ↔ keys[p + n]? = keys[q + n]?) := by
    intro n ha
    obtain ⟨hpn, hqn⟩ := ha.both_add_le hne hp hq
    rw [← h.place_add hne hp hq ha le_rfl, ← h.place_add hne.symm hq hp ha.symm le_rfl]
    exact h.key_eq_iff (by omega) hpn hqn
  induction length with
  | zero => exact iff_of_true agree_zero agree_zero
  | succ length ih =>
    rw [agree_add, agree_add, agree_one, agree_one]
    exact (and_congr_left' ih).trans (and_congr_right hkey)

lemma before_cases (hp : p < keys.size) : (∃ s, p = s + 1 ∧ place p = place s + 1) ∨
    (∀ q ≠ p, q ≤ keys.size → before? keys p ≠ before? keys q) ∧
      ∀ q ≠ place p, q ≤ keys'.size → before? keys' (place p) ≠ before? keys' q := by
  have hlt := h.lt p hp
  have hnew : ∀ {m}, place p = m + 1 → (∀ s < keys.size, place s ≠ m) →
      ∀ q ≠ place p, q ≤ keys'.size → before? keys' (place p) ≠ before? keys' q := by
    intro m hm hno q hne hq
    have hs := (h.new m (by omega)).resolve_right fun ⟨s, hs, he⟩ => hno s hs he
    rw [hm] at hne ⊢
    exact before?_ne_of_isSingle (by omega) hs hne
  cases p with
  | zero =>
    refine .inr ⟨fun q hne hq => (before?_zero_ne (by omega) hq), ?_⟩
    cases hm : place 0 with
    | zero => exact fun q hne hq => before?_zero_ne (by omega) hq
    | succ m =>
      rw [← hm]
      refine hnew hm fun s _ he => ?_
      have := h.mono.le_iff_le.mpr (Nat.zero_le s)
      omega
  | succ s =>
    by_cases hnext : place (s + 1) = place s + 1
    · exact .inl ⟨s, rfl, hnext⟩
    · have hs := (h.next s (by omega)).resolve_right hnext
      have hlt' : place s < place (s + 1) := h.mono (by omega)
      obtain ⟨m, hm⟩ : ∃ m, place (s + 1) = m + 1 := ⟨place (s + 1) - 1, by omega⟩
      refine .inr ⟨fun q hne _ => before?_ne_of_isSingle (by omega) hs hne, hnew hm fun t _ he => ?_⟩
      have h1 : s < t := h.mono.lt_iff_lt.mp (by omega)
      have h2 : t < s + 1 := h.mono.lt_iff_lt.mp (by omega)
      omega

lemma before?_eq_iff (hne : p ≠ q) (hp : p < keys.size) (hq : q < keys.size) :
    before? keys' (place p) = before? keys' (place q) ↔ before? keys p = before? keys q := by
  have hne' : place p ≠ place q := h.mono.injective.ne hne
  rcases h.before_cases hp with ⟨s, rfl, hs⟩ | ⟨ho, ho'⟩
  · rcases h.before_cases hq with ⟨t, rfl, ht⟩ | ⟨ho, ho'⟩
    · rw [hs, ht]
      exact h.key_eq_iff (by omega) (by omega) (by omega)
    · exact iff_of_false (ho' _ hne' (h.lt _ hp).le).symm (ho _ hne hp.le).symm
  · exact iff_of_false (ho' _ hne'.symm (h.lt _ hq).le) (ho _ hne.symm hq.le)

/-! ### Repeats -/

lemma occurs_move_iff {positions : List ℕ} (hpos : 0 < length) (hlt : ∀ p ∈ positions, p < keys.size)
    (hp : p ∈ positions) (hq : q ∈ positions) (hne : p ≠ q) :
    (∀ s', s' ∈ positions.map place ↔ s' + length ≤ keys'.size ∧ Agree keys' length (place p) s') ↔
      ∀ s, s ∈ positions ↔ s + length ≤ keys.size ∧ Agree keys length p s := by
  have hpl := (hlt p hp).le
  have hpl' := (h.lt p (hlt p hp)).le
  have hinj := h.mono.injective
  constructor
  · intro hall s
    have hpq := (h.agree_iff hne hpl (hlt q hq).le).mp ((hall _).mp (List.mem_map_of_mem hq)).2
    rcases Nat.lt_or_ge s keys.size with hs | hs
    · rw [← List.mem_map_of_injective hinj, hall]
      by_cases hps : p = s
      · subst hps
        have hroom := (hpq.both_add_le hne hpl (hlt q hq).le).1
        exact iff_of_true ((hall _).mp (List.mem_map_of_mem hp)) ⟨hroom, .refl _ _ _⟩
      · rw [h.agree_iff hps hpl hs.le]
        refine and_congr_left fun ha => iff_of_true ?_ (ha.both_add_le hps hpl hs.le).2
        exact (((h.agree_iff hps hpl hs.le).mpr ha).both_add_le (hinj.ne hps) hpl' (h.lt s hs).le).2
    · exact iff_of_false (fun hs' => (hlt s hs').not_ge hs) fun hs' => by omega
  · intro hall s'
    have hpq := (h.agree_iff hne hpl (hlt q hq).le).mpr ((hall q).mp hq).2
    constructor
    · intro hs'
      obtain ⟨s, hs, rfl⟩ := List.mem_map.mp hs'
      by_cases hps : p = s
      · subst hps
        exact ⟨(hpq.both_add_le (hinj.ne hne) hpl' (h.lt q (hlt q hq)).le).1, .refl _ _ _⟩
      · have ha := (h.agree_iff hps hpl (hlt s hs).le).mpr ((hall s).mp hs).2
        exact ⟨(ha.both_add_le (hinj.ne hps) hpl' (h.lt s (hlt s hs)).le).2, ha⟩
    · rintro ⟨hs', ha⟩
      by_cases hps : place p = s'
      · exact hps ▸ List.mem_map_of_mem hp
      · obtain ⟨s, hs, rfl⟩ := (h.new s' (by omega)).resolve_left (not_isSingle (Ne.symm hps) (ha 0 hpos).symm)
        have hne : p ≠ s := fun he => hps (he ▸ rfl)
        have ha := (h.agree_iff hne hpl hs.le).mp ha
        exact List.mem_map_of_mem ((hall s).mpr ⟨(ha.both_add_le hne hpl hs.le).2, ha⟩)

variable {positions : List ℕ}

lemma common_before_move_iff (hlt : ∀ p ∈ positions, p < keys.size) (h2 : ∃ p ∈ positions, ∃ q ∈ positions, p ≠ q) :
    (∃ key, ∀ p' ∈ positions.map place, 0 < p' ∧ keys'[p' - 1]? = some key) ↔
      ∃ key, ∀ p ∈ positions, 0 < p ∧ keys[p - 1]? = some key := by
  have hnone : ∀ p ∈ positions, ∀ q ∈ positions, before? keys p = none → before? keys q = none → p = q :=
    fun p hp q hq hn hn' => (before?_eq_none hn (hlt p hp).le).trans (before?_eq_none hn' (hlt q hq).le).symm
  have hnone' : ∀ p ∈ positions, ∀ q ∈ positions, before? keys' (place p) = none →
      before? keys' (place q) = none → p = q := fun p hp q hq hn hn' => h.mono.injective <|
    (before?_eq_none hn (h.lt p (hlt p hp)).le).trans (before?_eq_none hn' (h.lt q (hlt q hq)).le).symm
  simp only [← before?_eq_some, List.forall_mem_map]
  rw [exists_common_iff h2 hnone', exists_common_iff h2 hnone]
  exact forall₂_congr fun p hp => forall₂_congr fun q hq => imp_congr_right fun hne =>
    h.before?_eq_iff hne (hlt p hp) (hlt q hq)

lemma common_behind_move_iff (hle : ∀ p ∈ positions, p + length ≤ keys.size)
    (hmove : ∀ p ∈ positions, place (p + length) = place p + length)
    (h2 : ∃ p ∈ positions, ∃ q ∈ positions, p ≠ q) :
    (∃ key, ∀ p' ∈ positions.map place, keys'[p' + length]? = some key) ↔
      ∃ key, ∀ p ∈ positions, keys[p + length]? = some key := by
  have hiff : ∀ p ∈ positions, ∀ q ∈ positions, p ≠ q →
      (keys'[place p + length]? = keys'[place q + length]? ↔ keys[p + length]? = keys[q + length]?) := by
    intro p hp q hq hne
    rw [← hmove p hp, ← hmove q hq]
    exact h.key_eq_iff (by omega) (hle p hp) (hle q hq)
  have hend : ∀ p ∈ positions, keys'[place p + length]? = none → p + length = keys.size := by
    intro p hp hn
    rw [← hmove p hp, Array.getElem?_eq_none_iff] at hn
    by_contra hne
    have := h.lt (p + length) (lt_of_le_of_ne (hle p hp) hne)
    omega
  have hnone : ∀ p ∈ positions, ∀ q ∈ positions, keys[p + length]? = none → keys[q + length]? = none → p = q := by
    intro p hp q hq hn hn'
    rw [Array.getElem?_eq_none_iff] at hn hn'
    have := hle p hp
    have := hle q hq
    omega
  have hnone' : ∀ p ∈ positions, ∀ q ∈ positions, keys'[place p + length]? = none →
      keys'[place q + length]? = none → p = q := by
    intro p hp q hq hn hn'
    have := hend p hp hn
    have := hend q hq hn'
    omega
  simp only [List.forall_mem_map]
  rw [exists_common_iff h2 hnone', exists_common_iff h2 hnone]
  exact forall₂_congr fun p hp => forall₂_congr fun q hq => imp_congr_right (hiff p hp q hq)

lemma bounds_of_occurs (hlt : ∀ p ∈ positions, p < keys.size) (hp : p ∈ positions) (hq : q ∈ positions) (hne : p ≠ q)
    (hocc : ∀ s, s ∈ positions ↔ s + length ≤ keys.size ∧ Agree keys length p s) :
    ∀ s ∈ positions, s + length ≤ keys.size ∧ place (s + length) = place s + length := by
  intro s hs
  refine ⟨((hocc s).mp hs).1, ?_⟩
  by_cases hsp : s = p
  · rw [hsp]
    exact h.place_add hne (hlt p hp).le (hlt q hq).le ((hocc q).mp hq).2 le_rfl
  · exact h.place_add hsp (hlt s hs).le (hlt p hp).le ((hocc s).mp hs).2.symm le_rfl

lemma isMaximal_move_iff (hpos : 0 < r.length) (hlt : ∀ p ∈ r.positions, p < keys.size) :
    (r.move place).IsMaximal keys' ↔ r.IsMaximal keys := by
  have hsorted : (r.move place).positions.Pairwise (· < ·) ↔ r.positions.Pairwise (· < ·) := by
    rw [Repeat.move, List.pairwise_map]
    simp only [h.mono.lt_iff_lt]
  have hseveral : 2 ≤ (r.move place).positions.length ↔ 2 ≤ r.positions.length := by rw [Repeat.move, List.length_map]
  -- The other clauses are about two of the positions.
  have hrest : r.positions.Pairwise (· < ·) → 2 ≤ r.positions.length →
      ((r.move place).IsMaximal keys' ↔ r.IsMaximal keys) := by
    intro hs h2
    have htwo := (two_le_length_iff (hs.imp Nat.ne_of_lt)).mp h2
    have ⟨p, hp, q, hq, hne⟩ := htwo
    have hocc := h.occurs_move_iff hpos hlt hp hq hne
    rw [← Repeat.occurs_iff hpos (List.mem_map_of_mem hp), ← Repeat.occurs_iff hpos hp] at hocc
    have hbehind : (∃ run : List ℕ, run.length = r.length ∧ ∀ p, p ∈ r.positions ↔ run <+: keys.toList.drop p) →
        ((∃ key, ∀ p' ∈ r.positions.map place, keys'[p' + r.length]? = some key) ↔
          ∃ key, ∀ p ∈ r.positions, keys[p + r.length]? = some key) := fun ho => by
      have hmove := h.bounds_of_occurs hlt hp hq hne ((Repeat.occurs_iff hpos hp).mp ho)
      exact h.common_behind_move_iff (fun s hs => (hmove s hs).1) (fun s hs => (hmove s hs).2) htwo
    have hbefore := h.common_before_move_iff hlt htwo
    constructor
    · intro hr
      have ho := hocc.mp hr.occurs
      exact ⟨ho, hs, h2, mt hbefore.mpr hr.before, mt (hbehind ho).mpr hr.behind⟩
    · intro hr
      exact ⟨hocc.mpr hr.occurs, hsorted.mpr hs, hseveral.mpr h2, mt hbefore.mp hr.before,
        mt (hbehind hr.occurs).mp hr.behind⟩
  exact ⟨fun hr => (hrest (hsorted.mp hr.sorted) (hseveral.mp hr.several)).mp hr,
    fun hr => (hrest hr.sorted hr.several).mpr hr⟩

lemma bounds_of_isMaximal (hpos : 0 < r.length) (hr : r.IsMaximal keys) :
    ∀ p ∈ r.positions, p + r.length ≤ keys.size ∧ place (p + r.length) = place p + r.length := by
  intro p hp
  obtain ⟨q, hq, hne⟩ := hr.exists_ne p
  have hocc := (Repeat.occurs_iff hpos hp).mp hr.occurs
  refine h.bounds_of_occurs (fun s hs => ?_) hp hq hne hocc p hp
  have := ((hocc s).mp hs).1
  omega

lemma exists_move {r' : Repeat} (hpos : 0 < r'.length) (hr : r'.IsMaximal keys') :
    ∃ r : Repeat, r.move place = r' ∧ ∀ p ∈ r.positions, p < keys.size := by
  have hplace : ∀ q ∈ r'.positions, ∃ p < keys.size, place p = q := by
    intro q hq
    obtain ⟨s, hs, hne⟩ := hr.exists_ne q
    have hocc := (Repeat.occurs_iff hpos hq).mp hr.occurs
    have hlt := ((hocc q).mp hq).1
    exact (h.new q (by omega)).resolve_left (not_isSingle hne (((hocc s).mp hs).2 0 hpos))
  obtain ⟨positions, hp⟩ : r'.positions ∈ Set.range (List.map place) := by
    rw [Set.range_list_map]
    exact fun q hq => (hplace q hq).imp fun p hp => hp.2
  refine ⟨⟨r'.length, positions⟩, by rw [Repeat.move, hp], fun p hm => ?_⟩
  obtain ⟨s, hs, he⟩ := hplace (place p) (hp ▸ List.mem_map_of_mem hm)
  exact h.mono.injective he ▸ hs

lemma all_eq (minimum : ℕ) :
    Repeat.all keys' (.build keys') minimum = (Repeat.all keys (.build keys) minimum).map (·.move place) := by
  have hi := build_indexes keys
  have hi' := build_indexes keys'
  have hsorted : ((Repeat.all keys (.build keys) minimum).map (·.move place)).Pairwise Repeat.Before := by
    refine List.pairwise_map.mpr ((Repeat.pairwise_all hi minimum).imp fun {r s} hrs => ?_)
    exact hrs.imp_right (And.imp_right (List.map_lt fun _ _ => @h.mono _ _))
  refine (Repeat.pairwise_all hi' minimum).eq_of_mem_iff hsorted fun r' => ?_
  rw [Repeat.mem_all hi', List.mem_map]
  constructor
  · rintro ⟨hl, hr'⟩
    have hpos : 0 < r'.length := by omega
    obtain ⟨r, rfl, hlt⟩ := h.exists_move hpos hr'
    exact ⟨r, (Repeat.mem_all hi).mpr ⟨hl, (h.isMaximal_move_iff (r := r) hpos hlt).mp hr'⟩, rfl⟩
  · rintro ⟨r, hr, rfl⟩
    obtain ⟨hl, hr⟩ := (Repeat.mem_all hi).mp hr
    have hpos : 0 < r.length := by omega
    refine ⟨hl, (h.isMaximal_move_iff hpos fun p hp => ?_).mpr hr⟩
    have := (h.bounds_of_isMaximal hpos hr p hp).1
    omega

end Spreads

end CodeClones
