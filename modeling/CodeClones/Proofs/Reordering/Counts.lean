import Mathlib.Algebra.BigOperators.Group.List.Basic
import CodeClones.Proofs.Reordering.Groups

/-! How many files, tokens and repeats there are, and what becomes of the repeats, whatever the order of
files. -/

namespace CodeClones

open Corpus Duplication Success

variable {given given' : List TokenizedFile} {number number' : ℕ → ℕ} {texts : Texts} {run : List Key} {r : Repeat}
  {positions : List ℕ} {length minimum : ℕ} {outcome : Outcome} {found found' : List Outcome}

namespace Duplication

lemma outcome_eq_iff {c : Corpus} (h : outcomeOf c r = .ok outcome) :
    (outcome = .overlapping ↔
      maximalPairs c.keys r.positions r.length = [] ∧ ¬ hasDisjoint r.length r.positions = true) ∧
    (outcome = .contained ↔
      maximalPairs c.keys r.positions r.length = [] ∧ hasDisjoint r.length r.positions = true) := by
  rw [outcomeOf_def] at h
  obtain ⟨⟨⟩, -, h⟩ := bind_eq_ok.mp h
  generalize maximalPairs c.keys r.positions r.length = pairs at h ⊢
  cases pairs with
  | nil =>
    obtain rfl := Except.ok.inj h
    cases hasDisjoint r.length r.positions <;> simp
  | cons first others =>
    obtain ⟨duplications, -, h⟩ := bind_eq_ok.mp h
    obtain rfl := Except.ok.inj h
    simp

lemma hasDisjoint_iff (hs : positions.Pairwise (· < ·)) (hn : positions ≠ []) :
    hasDisjoint length positions = true ↔ ∃ p ∈ positions, ∃ q ∈ positions, p + length ≤ q := by
  have hhead : ∀ p ∈ positions, positions.head hn ≤ p := by
    obtain ⟨first, rest, rfl⟩ := List.exists_cons_of_ne_nil hn
    intro p hp
    rcases List.mem_cons.mp hp with rfl | hp
    · exact le_rfl
    · exact ((List.pairwise_cons.mp hs).1 p hp).le
  have hlast : ∀ q ∈ positions, q ≤ positions.getLast hn := by
    intro q hq
    rw [← List.dropLast_append_getLast hn, List.pairwise_append] at hs
    rw [← List.dropLast_append_getLast hn, List.mem_append, List.mem_singleton] at hq
    rcases hq with hq | rfl
    · exact (hs.2.2 q hq _ (List.mem_singleton_self _)).le
    · exact le_rfl
  rw [hasDisjoint_def, List.head?_eq_some_head hn, List.getLast?_eq_some_getLast hn, decide_eq_true_eq]
  have hle := hhead _ (List.getLast_mem hn)
  constructor
  · intro h
    rw [Option.getD_some, Option.getD_some] at h
    exact ⟨_, List.head_mem hn, _, List.getLast_mem hn, by omega⟩
  · rintro ⟨p, hp, q, hq, h⟩
    have := hhead p hp
    have := hlast q hq
    rw [Option.getD_some, Option.getD_some]
    omega

end Duplication

namespace Texts

def HasApart (texts : Texts) (run : List Key) : Prop :=
  ∃ x y, x ≠ y ∧ texts.Occurs run x ∧ texts.Occurs run y ∧ Apart run.length x y

def IsOverlapping (texts : Texts) (run : List Key) : Prop :=
  (¬ ∃ x y, texts.IsMaximalPair run x y) ∧ ¬ texts.HasApart run

def IsContained (texts : Texts) (run : List Key) : Prop :=
  (¬ ∃ x y, texts.IsMaximalPair run x y) ∧ texts.HasApart run

namespace IsRepeatOf

variable (ht : texts.IsRepeatOf number given run r) (h : texts.Numbers number given) (hrun : run ≠ [])

include ht h hrun

lemma maximalPairs_eq_nil_iff : maximalPairs (ofFiles given).keys r.positions r.length = [] ↔
    ¬ ∃ x y, texts.IsMaximalPair run x y := by
  constructor
  · rintro hnil ⟨x, y, hxy⟩
    obtain ⟨pair, hp, -⟩ := ht.exists_mem_maximalPairs h hrun hxy
    rw [hnil] at hp
    exact absurd hp List.not_mem_nil
  · intro hno
    refine List.eq_nil_iff_forall_not_mem.mpr fun pair hp => hno ?_
    exact ⟨_, _, ((ht.mem_maximalPairs_iff h hrun).mp hp).2.2.2⟩

lemma hasDisjoint_iff_hasApart (hs : r.positions.Pairwise (· < ·)) (hn : r.positions ≠ []) :
    hasDisjoint r.length r.positions = true ↔ texts.HasApart run := by
  have hpos := List.length_pos_iff.mpr hrun
  rw [hasDisjoint_iff hs hn, ht.length]
  constructor
  · rintro ⟨p, hp, q, hq, hle⟩
    obtain ⟨⟨k, i, f, hf⟩, hop⟩ := (ht.mem_iff p).mp hp
    obtain ⟨⟨l, j, g, hg⟩, hoq⟩ := (ht.mem_iff q).mp hq
    have hlt : p < q := by omega
    exact ⟨_, _, (ht.ne_iff h hp hq).mpr hlt.ne, hop, hoq, (h.add_le_iff hf hg hlt).mp hle⟩
  · rintro ⟨x, y, hne, hx, hy, hxy⟩
    obtain ⟨p, hp, rfl⟩ := ht.exists_mem h hrun hx
    obtain ⟨q, hq, rfl⟩ := ht.exists_mem h hrun hy
    obtain ⟨⟨k, i, f, hf⟩, -⟩ := (ht.mem_iff p).mp hp
    obtain ⟨⟨l, j, g, hg⟩, -⟩ := (ht.mem_iff q).mp hq
    rcases Nat.lt_or_gt_of_ne ((ht.ne_iff h hp hq).mp hne) with hlt | hlt
    · exact ⟨p, hp, q, hq, (h.add_le_iff hf hg hlt).mpr hxy⟩
    · exact ⟨q, hq, p, hp, (h.add_le_iff hg hf hlt).mpr fun he => (hxy he.symm).symm⟩

end IsRepeatOf

lemma Numbers.perm (h : texts.Numbers number given) (h' : texts.Numbers number' given') :
    (given.map fun f => f.tokens.map (·.key)).Perm (given'.map fun f => f.tokens.map (·.key)) := by
  have hnodup : ∀ {number given}, texts.Numbers number given →
      (given.map fun f => (number f.inputIndex, f.tokens.map (·.key))).Nodup := by
    intro number given h
    refine List.pairwise_map.mpr (List.pairwise_iff_getElem.mpr fun k l hk hl hkl he => hkl.ne ?_)
    exact h.unique (List.getElem?_eq_getElem hk) (List.getElem?_eq_getElem hl) (Prod.mk.inj he).1
  have hperm : (given.map fun f => (number f.inputIndex, f.tokens.map (·.key))).Perm
      (given'.map fun f => (number' f.inputIndex, f.tokens.map (·.key))) := by
    refine (List.perm_ext_iff_of_nodup (hnodup h) (hnodup h')).mpr fun x => ?_
    simp only [List.mem_map, Prod.ext_iff, ← h.text_iff, ← h'.text_iff]
  have hkeys := hperm.map Prod.snd
  rwa [List.map_map, List.map_map] at hkeys

lemma Numbers.length_eq (h : texts.Numbers number given) (h' : texts.Numbers number' given') :
    given.length = given'.length := by
  have := (h.perm h').length_eq
  rwa [List.length_map, List.length_map] at this

lemma Numbers.sum_length_eq (h : texts.Numbers number given) (h' : texts.Numbers number' given') :
    (given.map (·.tokens.length)).sum = (given'.map (·.tokens.length)).sum := by
  have := ((h.perm h').map List.length).sum_eq
  simpa only [List.map_map, Function.comp_def, List.length_map] using this

lemma Numbers.runs_perm (h : texts.Numbers number given) (h' : texts.Numbers number' given') (minimum : ℕ) :
    ((Repeat.all (ofFiles given).keys (.build (ofFiles given).keys) minimum).map (runOf given)).Perm
      ((Repeat.all (ofFiles given').keys (.build (ofFiles given').keys) minimum).map (runOf given')) :=
  (List.perm_ext_iff_of_nodup (nodup_map_runOf h) (nodup_map_runOf h')).mpr fun _ =>
    (mem_map_runOf_iff h).trans (mem_map_runOf_iff h').symm

lemma count_outcomes {P : List Key → Prop} [DecidablePred P] {target : Outcome}
    (hf : Detector.outcomes (ofFiles given) minimum = .ok found)
    (hP : ∀ r outcome, r.IsMaximal (ofFiles given).keys → 0 < r.length →
      outcomeOf (ofFiles given) r = .ok outcome → (outcome = target ↔ P (runOf given r))) :
    found.count target =
      ((Repeat.all (ofFiles given).keys (.build (ofFiles given).keys) minimum).map (runOf given)).countP P := by
  have hmem : ∀ r ∈ Repeat.all (ofFiles given).keys (.build (ofFiles given).keys) minimum,
      r.IsMaximal (ofFiles given).keys ∧ 0 < r.length := by
    intro r hr
    obtain ⟨hl, hmax⟩ := (Repeat.mem_all (SuffixIndex.build_indexes _)).mp hr
    exact ⟨hmax, by omega⟩
  have hall := (List.forall₂_and_left _ _).mpr ⟨hmem, Detector.outcomes_eq_ok hf⟩
  have hmap := map_eq_of_forall₂ hall (F := fun r => decide (P (runOf given r)))
    (G := fun outcome => outcome == target) fun r outcome ⟨⟨hmax, hpos⟩, ho⟩ => by
      rw [Bool.eq_iff_iff, decide_eq_true_eq, beq_iff_eq, hP r outcome hmax hpos ho]
  have hcount := congrArg (List.countP id) hmap
  rw [List.countP_map, List.countP_map] at hcount
  rw [List.countP_map]
  exact hcount.symm

lemma Numbers.outcome_iff (h : texts.Numbers number given) (hmax : r.IsMaximal (ofFiles given).keys)
    (hpos : 0 < r.length) (ho : outcomeOf (ofFiles given) r = .ok outcome) :
    (outcome = .overlapping ↔ texts.IsOverlapping (runOf given r)) ∧
      (outcome = .contained ↔ texts.IsContained (runOf given r)) := by
  have ht := h.isRepeatOf_runOf hmax hpos
  have hrun := runOf_ne_nil h hmax hpos
  have hn : r.positions ≠ [] := List.ne_nil_of_length_pos (Nat.zero_lt_of_lt hmax.several)
  rw [IsOverlapping, IsContained, ← ht.maximalPairs_eq_nil_iff h hrun,
    ← ht.hasDisjoint_iff_hasApart h hrun hmax.sorted hn]
  exact outcome_eq_iff ho

lemma Numbers.outcomes_eq (h : texts.Numbers number given) (h' : texts.Numbers number' given')
    (hf : Detector.outcomes (ofFiles given) minimum = .ok found)
    (hf' : Detector.outcomes (ofFiles given') minimum = .ok found') :
    found.length = found'.length ∧ found.count .overlapping = found'.count .overlapping ∧
      found.count .contained = found'.count .contained := by
  classical
  refine ⟨?_, ?_, ?_⟩
  · have hl := (h.runs_perm h' minimum).length_eq
    rw [List.length_map, List.length_map] at hl
    rw [← (Detector.outcomes_eq_ok hf).length_eq, ← (Detector.outcomes_eq_ok hf').length_eq, hl]
  · rw [count_outcomes hf fun r outcome hmax hpos ho => (h.outcome_iff hmax hpos ho).1,
      count_outcomes hf' fun r outcome hmax hpos ho => (h'.outcome_iff hmax hpos ho).1]
    exact (h.runs_perm h' minimum).countP_eq _
  · rw [count_outcomes hf fun r outcome hmax hpos ho => (h.outcome_iff hmax hpos ho).2,
      count_outcomes hf' fun r outcome hmax hpos ho => (h'.outcome_iff hmax hpos ho).2]
    exact (h.runs_perm h' minimum).countP_eq _

end Texts

end CodeClones
