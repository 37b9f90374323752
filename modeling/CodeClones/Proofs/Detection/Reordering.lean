import Mathlib
import CodeClones.Proofs.Detection.Accesses
import CodeClones.Proofs.Reordering.Counts
import CodeClones.Proofs.Reordering.Gathering

/-! Detection in another order of the files. -/

namespace CodeClones

open Corpus Duplication Success

namespace Detector

variable {d : Detector} {files : List SourceFile} {o : Options} {result : Detection} {σ : Equiv.Perm (Fin files.length)}

/-- In another order, too, detection succeeds, with the same statistics but for the number of duplications. It
tells the same of each run that overlaps itself in no file. Of a run that does, it tells groups of the same
maximal pairs; which of the pairs have a group of their own depends on the order. -/
theorem detect_reordered (h : d.detect files o = .ok result)
    (hkeys : ∀ n : Fin files.length,
      keysOf? d.registry o (reordered files σ) n = keysOf? d.registry o files (σ n)) :
    ∃ result', d.detect (reordered files σ) o = .ok result' ∧
      result'.statistics = { result.statistics with duplications := result'.duplications.length } ∧
      (keysOf? d.registry o files).SameReports o.minimumTokens (result.duplications.map (·.reading id))
        (result'.duplications.map (·.reading (oldNumber σ))) := by
  have hn : (keysOf? d.registry o files).Numbers id (gathered d.registry o files) :=
    numbers_gathered (Equiv.refl ℕ) fun _ => rfl
  have hn' : (keysOf? d.registry o files).Numbers (oldNumber σ) (gathered d.registry o (reordered files σ)) :=
    numbers_gathered (oldNumber σ) (keysOf?_reordered hkeys)
  have hlength := hn.length_eq hn'
  have hsum := hn.sum_length_eq hn'
  obtain ⟨hv, corpus, warnings, found, hb, hf, he⟩ := detect_eq_ok_iff.mp h
  obtain ⟨⟨corpus', warnings'⟩, hb'⟩ :
      ∃ built, Corpus.build d.registry o d.cancelled (reordered files σ) = .ok built := by
    obtain ⟨hknown, hc, hfail, hlimit, hroom⟩ := exists_build_iff.mp ⟨_, hb⟩
    refine exists_build_iff.mpr ⟨fun file hf => hknown file (mem_reordered_iff.mp hf), fun hcancel => ?_, ?_, ?_, ?_⟩
    · rw [← List.length_eq_zero_iff, length_reordered, hc hcancel, List.length_nil]
    · rwa [length_reordered, ← hlength]
    · rwa [← hsum]
    · rwa [← hsum, ← hlength]
  have hcorpus : corpus = ofFiles (gathered d.registry o files) := build_eq_ok hb
  have hcorpus' : corpus' = ofFiles (gathered d.registry o (reordered files σ)) := build_eq_ok hb'
  obtain ⟨found', hf'⟩ := exists_outcomes (gathered d.registry o (reordered files σ)) o.minimumTokens
  have h' := detect_eq_ok_iff.mpr ⟨hv, corpus', warnings', found', hb', hcorpus' ▸ hf', rfl⟩
  refine ⟨_, h', ?_, (detect_reports h hn).same (detect_reports h' hn') (detect_eq_ok h).1⟩
  have hskipped : warnings'.length = warnings.length := by
    have hl := length_of_build_eq_ok hb
    have hl' := length_of_build_eq_ok hb'
    rw [length_reordered] at hl'
    dsimp only at hl hl'
    omega
  obtain ⟨hrepeats, hoverlapping, hcontained⟩ := hn.outcomes_eq hn' (hcorpus ▸ hf) hf'
  rw [he, hcorpus, hcorpus']
  simp only [size_files, size_tokens, hlength, hsum, hskipped, hrepeats, hoverlapping, hcontained, length_reordered]

theorem detect_reordered_words : ∃ result,
    detect { registry := .register .empty (.words "words" []) [] }
      [⟨"a", "p x y", none⟩, ⟨"b", "x y q", none⟩, ⟨"c", "r x y r", none⟩]
      { minimumTokens := 2, language := "words" } = .ok result ∧ result.duplications.length = 1 ∧
    ∃ result', detect { registry := .register .empty (.words "words" []) [] }
      (reordered [⟨"a", "p x y", none⟩, ⟨"b", "x y q", none⟩, ⟨"c", "r x y r", none⟩] (finRotate 3))
      { minimumTokens := 2, language := "words" } = .ok result' ∧
    result'.statistics = { result.statistics with duplications := result'.duplications.length } ∧
    (keysOf? (.register .empty (.words "words" []) []) { minimumTokens := 2, language := "words" }
      [⟨"a", "p x y", none⟩, ⟨"b", "x y q", none⟩, ⟨"c", "r x y r", none⟩]).SameReports 2
        (result.duplications.map (·.reading id)) (result'.duplications.map (·.reading (oldNumber (finRotate 3)))) :=
  ⟨_, by cbv, rfl, detect_reordered (d := { registry := .register .empty (.words "words" []) [] }) (by cbv)
    (by intro n; fin_cases n <;> cbv)⟩

/-- The order matters if a run overlaps itself in a file, or if a tokenizer looks at the number of the file. -/
theorem detect_depends_on_order :
    (∃ result result',
      detect { registry := .register .empty (.words "words" []) [] }
        [⟨"a", "x x", none⟩, ⟨"b", "x x x", none⟩, ⟨"c", "x x x", none⟩]
        { minimumTokens := 2, language := "words" } = .ok result ∧
      detect { registry := .register .empty (.words "words" []) [] }
        (reordered [⟨"a", "x x", none⟩, ⟨"b", "x x x", none⟩, ⟨"c", "x x x", none⟩] (finRotate 3))
        { minimumTokens := 2, language := "words" } = .ok result' ∧
      result.statistics.skippedFiles = 0 ∧ result.statistics.duplications = 4 ∧ result'.statistics.duplications = 3 ∧
      ¬ (result.duplications.map (·.reading id)).Perm
        (result'.duplications.map (·.reading (oldNumber (finRotate 3))))) ∧
    (∃ result result',
      detect { registry := .register .empty ⟨"first", [], false, fun source file _ =>
          ⟨[⟨.identifier, some (if file = 0 then source else "a"), file, ⟨1, 1⟩, ⟨1, 1⟩⟩], none⟩⟩ [] }
        [⟨"a", "a", none⟩, ⟨"b", "b", none⟩] { minimumTokens := 1, language := "first" } = .ok result ∧
      detect { registry := .register .empty ⟨"first", [], false, fun source file _ =>
          ⟨[⟨.identifier, some (if file = 0 then source else "a"), file, ⟨1, 1⟩, ⟨1, 1⟩⟩], none⟩⟩ [] }
        (reordered [⟨"a", "a", none⟩, ⟨"b", "b", none⟩] (finRotate 2))
        { minimumTokens := 1, language := "first" } = .ok result' ∧
      result.statistics.skippedFiles = 0 ∧ result.statistics.duplications = 1 ∧ result'.statistics.duplications = 0 ∧
      ¬ (result.duplications.map (·.reading id)).Perm
        (result'.duplications.map (·.reading (oldNumber (finRotate 2))))) := by
  refine ⟨⟨_, _, by cbv, by cbv, rfl, rfl, rfl, fun h => ?_⟩, ⟨_, _, by cbv, by cbv, rfl, rfl, rfl, fun h => ?_⟩⟩
  · exact absurd h.length_eq (by simp)
  · exact absurd h.length_eq (by simp)

end Detector

end CodeClones
