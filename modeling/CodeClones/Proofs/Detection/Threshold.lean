import Mathlib
import CodeClones.Proofs.Duplication.Order
import CodeClones.Proofs.Detection.Accesses

/-! Detection with a greater bound on the length of duplications. -/

namespace CodeClones

open Corpus Duplication Success

variable {given : List TokenizedFile} {r : Repeat} {outcome : Outcome} {m : ℕ}

namespace Duplication

lemma tokens_of_outcome {dup : Duplication} (h : outcomeOf (ofFiles given) r = .ok outcome)
    (hd : dup ∈ outcome.duplications) : dup.tokens = r.length := by
  obtain ⟨_, -, hof⟩ := exists_of_mem_right (outcomeOf_eq_ok h) hd
  exact hof.tokens

lemma filter_duplications (h : outcomeOf (ofFiles given) r = .ok outcome) :
    outcome.duplications.filter (m ≤ ·.tokens) = if m ≤ r.length then outcome.duplications else [] := by
  split
  · next hm =>
    exact List.filter_eq_self.mpr fun dup hd => decide_eq_true (tokens_of_outcome h hd ▸ hm)
  · next hm =>
    refine List.filter_eq_nil_iff.mpr fun dup hd => ?_
    rwa [tokens_of_outcome h hd, decide_eq_true_eq]

lemma exists_outcomes_filter {repeats : List Repeat} {found : List Outcome} (m : ℕ)
    (h : List.Forall₂ (fun r outcome => outcomeOf (ofFiles given) r = .ok outcome) repeats found) :
    ∃ found', (repeats.filter (m ≤ ·.length)).mapM (outcomeOf (ofFiles given)) = .ok found' ∧
      found'.flatMap (·.duplications) = (found.flatMap (·.duplications)).filter (m ≤ ·.tokens) := by
  simp only [mapM_eq_ok]
  induction h with
  | nil => exact ⟨[], .nil, rfl⟩
  | @cons r outcome repeats found ho _ ih =>
    obtain ⟨found', hf, he⟩ := ih
    rw [List.filter_cons, List.flatMap_cons, List.filter_append, filter_duplications ho]
    by_cases hm : m ≤ r.length
    · simp only [hm, decide_true, if_true]
      exact ⟨outcome :: found', .cons ho hf, by rw [List.flatMap_cons, he]⟩
    · simp only [hm, decide_false, if_false, List.nil_append]
      exact ⟨found', hf, he⟩

end Duplication

namespace Detector

variable {d : Detector} {files : List SourceFile} {o : Options} {result : Detection}

/-- With a greater bound, detection tells of the same duplications, in the same order, but for those that have
become too short. -/
theorem detect_threshold (h : d.detect files o = .ok result) (hm : o.minimumTokens ≤ m) :
    ∃ result', d.detect files { o with minimumTokens := m } = .ok result' ∧
      result'.duplications = result.duplications.filter (m ≤ ·.tokens) := by
  obtain ⟨hv, corpus, warnings, found, hb, hf, rfl⟩ := detect_eq_ok_iff.mp h
  obtain ⟨hpos, hlimit, hknown⟩ := Options.validate_eq_ok_iff.mp hv
  obtain rfl : corpus = ofFiles (gathered d.registry o files) := build_eq_ok hb
  obtain ⟨found', hf', he⟩ := exists_outcomes_filter m (outcomes_eq_ok hf)
  rw [← Repeat.all_eq_filter _ _ hm] at hf'
  -- The bound is not looked at before the repeats are searched.
  have hb' : Corpus.build d.registry { o with minimumTokens := m } d.cancelled files =
      .ok (ofFiles (gathered d.registry o files), warnings) := hb
  have hv' : ({ o with minimumTokens := m } : Options).validate d.registry = .ok () :=
    Options.validate_eq_ok_iff.mpr ⟨hpos.trans_le hm, hlimit, hknown⟩
  rw [← outcomes_def] at hf'
  refine ⟨_, detect_eq_ok_iff.mpr ⟨hv', _, _, found', hb', hf', rfl⟩, ?_⟩
  rw [report_def, report_def, he, @filter_mergeSort Duplication (fun a b => (a.compare b).isLE)
    (fun _ _ _ => compare_trans) compare_total]

theorem detect_threshold_words : ∃ result,
    detect { registry := .register .empty (.words "words" []) [] }
      [⟨"a", "x y z p u v", none⟩, ⟨"b", "x y z q u v", none⟩]
      { minimumTokens := 1, language := "words" } = .ok result ∧ result.duplications.map (·.tokens) = [3, 2] ∧
    ∃ result', detect { registry := .register .empty (.words "words" []) [] }
      [⟨"a", "x y z p u v", none⟩, ⟨"b", "x y z q u v", none⟩]
      { minimumTokens := 3, language := "words" } = .ok result' ∧
    result'.duplications = result.duplications.filter (3 ≤ ·.tokens) :=
  ⟨_, by cbv, rfl, detect_threshold (d := { registry := .register .empty (.words "words" []) [] })
    (o := { minimumTokens := 1, language := "words" }) (by cbv) (by decide)⟩

end Detector

end CodeClones
