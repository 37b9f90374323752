import CodeClones.Detector
import CodeClones.Proofs.Corpus.Outcome
import CodeClones.Proofs.Duplication.Chain
import CodeClones.Proofs.Duplication.Pairs
import CodeClones.Proofs.Duplication.Resolve
import CodeClones.Proofs.Repeat.Maximal

/-! A report tells the chains of the maximal repeats, and nothing else. -/

namespace CodeClones.Detector

open Corpus Duplication Success

variable {d : Detector} {files : List SourceFile} {o : Options} {result : Detection} {dup : Duplication}
  {r : Repeat} {pair : ℕ × ℕ}

def corpusOf (d : Detector) (files : List SourceFile) (o : Options) : Corpus :=
  ofFiles (gathered d.registry o files)

lemma outcomes_def (c : Corpus) (minimum : ℕ) :
    outcomes c minimum = (Repeat.all c.keys (.build c.keys) minimum).mapM (outcomeOf c) := by
  simp only [outcomes, outcomesM, plain_bind, plain_lift, plain_mapM]
  rfl

lemma detect_def (d : Detector) (files : List SourceFile) (o : Options) : d.detect files o = (do
    (o.validate d.registry).mapError .configuration
    let (corpus, warnings) ← Corpus.build d.registry o d.cancelled files
    let outcomes ← (outcomes corpus o.minimumTokens).mapError .misplaced
    return resultOf files corpus warnings outcomes (report outcomes)) := by
  simp only [detect, detectM, plain_bind, plain_monadLift, plain_lift, plain_adapt]
  rfl

lemma detect_eq_ok_iff : d.detect files o = .ok result ↔ o.validate d.registry = .ok () ∧
    ∃ corpus warnings found, Corpus.build d.registry o d.cancelled files = .ok (corpus, warnings) ∧
      outcomes corpus o.minimumTokens = .ok found ∧
      result = {
        duplications := report found, warnings
        statistics := {
          inputFiles := files.length
          tokenizedFiles := corpus.files.size
          skippedFiles := warnings.length
          totalTokens := corpus.tokens.size
          repeats := found.length
          overlapping := found.count .overlapping
          contained := found.count .contained
          duplications := (report found).length } } := by
  simp only [detect_def, bind_eq_ok, mapError_eq_ok]
  constructor
  · rintro ⟨⟨⟩, hv, ⟨corpus, warnings⟩, hb, found, hf, h⟩
    exact ⟨hv, corpus, warnings, found, hb, hf, (Except.ok.inj h).symm⟩
  · rintro ⟨hv, corpus, warnings, found, hb, hf, rfl⟩
    exact ⟨(), hv, (corpus, warnings), hb, found, hf, rfl⟩

lemma detect_eq_ok (h : d.detect files o = .ok result) : 0 < o.minimumTokens ∧ ∃ found,
    outcomes (corpusOf d files o) o.minimumTokens = .ok found ∧ result.duplications = report found := by
  obtain ⟨hv, corpus, warnings, found, hb, hf, rfl⟩ := detect_eq_ok_iff.mp h
  have hcorpus : corpus = corpusOf d files o := build_eq_ok hb
  exact ⟨(Options.validate_eq_ok_iff.mp hv).1, found, hcorpus ▸ hf, rfl⟩

lemma outcomes_eq_ok {c : Corpus} {minimum : ℕ} {found : List Outcome} (h : outcomes c minimum = .ok found) :
    List.Forall₂ (fun r outcome => outcomeOf c r = .ok outcome) (Repeat.all c.keys (.build c.keys) minimum)
      found :=
  mapM_eq_ok.mp (outcomes_def c minimum ▸ h)

lemma exists_repeat (h : d.detect files o = .ok result) (hd : dup ∈ result.duplications) :
    ∃ (r : Repeat) (pair : ℕ × ℕ), o.minimumTokens ≤ r.length ∧ 0 < r.length ∧ r.IsMaximal (corpusOf d files o).keys ∧
      pair ∈ maximalPairs (corpusOf d files o).keys r.positions r.length ∧
      OfChain (gathered d.registry o files) r.length (chainThrough r.positions r.length pair) dup := by
  obtain ⟨hpos, found, hf, hr⟩ := detect_eq_ok h
  rw [hr, mem_report] at hd
  obtain ⟨outcome, ho, hd⟩ := hd
  obtain ⟨r, hm, ho⟩ := exists_of_mem_right (outcomes_eq_ok hf) ho
  obtain ⟨hl, hmax⟩ := (Repeat.mem_all (SuffixIndex.build_indexes _)).mp hm
  have hchains := outcomeOf_eq_ok ho
  obtain ⟨chain, hc, hof⟩ := exists_of_mem_right hchains hd
  obtain ⟨pair, hp, rfl⟩ := exists_pair_of_mem_coverPairs hc
  exact ⟨r, pair, by omega, by omega, hmax, hp, hof⟩

lemma exists_duplication (h : d.detect files o = .ok result) (hl : o.minimumTokens ≤ r.length)
    (hr : r.IsMaximal (corpusOf d files o).keys)
    (hp : pair ∈ maximalPairs (corpusOf d files o).keys r.positions r.length) :
    ∃ dup ∈ result.duplications, ∃ chain, holds chain pair = true ∧
      OfChain (gathered d.registry o files) r.length chain dup := by
  obtain ⟨hpos, found, hf, he⟩ := detect_eq_ok h
  have hm := (Repeat.mem_all (SuffixIndex.build_indexes _)).mpr ⟨Nat.max_le.mpr ⟨hl, by omega⟩, hr⟩
  obtain ⟨outcome, hfo, ho⟩ := exists_of_mem_left (outcomes_eq_ok hf) hm
  have hchains := outcomeOf_eq_ok ho
  have hheld : ∀ pair ∈ maximalPairs (corpusOf d files o).keys r.positions r.length,
      holds (chainThrough r.positions r.length pair) pair = true := by
    intro pair hp
    obtain ⟨ha, hb, hle, -, -⟩ := mem_maximalPairs.mp hp
    exact holds_chainThrough hr.sorted ha hb (by omega)
  obtain ⟨chain, hc, hh⟩ := exists_mem_coverPairs_holds hheld hp
  obtain ⟨dup, hd, hof⟩ := exists_of_mem_left hchains hc
  refine ⟨dup, ?_, chain, hh, hof⟩
  rw [he, mem_report]
  exact ⟨outcome, hfo, hd⟩

end CodeClones.Detector
