import Mathlib
import CodeClones.Proofs.Insertion.Gathering
import CodeClones.Proofs.Insertion.Outcomes

/-! A file in which there are no tokens changes nothing but the numbers of the files behind it. -/

namespace CodeClones

open Corpus Duplication Success

/-- One more file has been counted; nothing has been found in it, or it has been refused. The files from number `k`
on have got the next numbers. -/
structure Detection.Gains (before after : Detection) (k : ℕ) (failure : Option TokenizationError) : Prop where
  duplications : after.duplications = before.duplications.map (·.renumbered (makeRoom k 1))
  statistics : after.statistics = { before.statistics with
    inputFiles := before.statistics.inputFiles + 1
    tokenizedFiles := before.statistics.tokenizedFiles + if failure.isSome then 0 else 1
    skippedFiles := before.statistics.skippedFiles + if failure.isSome then 1 else 0 }
  warnings : ∃ early late, before.warnings = early ++ late ∧ after.warnings = early ++ (failure.toList ++ late)

namespace Detector

variable {d : Detector} {files pre post : List SourceFile} {o : Options} {result : Detection} {file : SourceFile}
  {t : Tokenizer} {k : ℕ}

lemma count_renumbered {number : ℕ → ℕ} (found : List Outcome) :
    (found.map (·.renumbered number)).count .overlapping = found.count .overlapping ∧
      (found.map (·.renumbered number)).count .contained = found.count .contained := by
  simp only [List.count, List.countP_map]
  constructor
  · exact List.countP_congr fun outcome _ => by cases outcome <;> simp [Outcome.renumbered]
  · exact List.countP_congr fun outcome _ => by cases outcome <;> simp [Outcome.renumbered]

/-- Files without tokens have no influence on what is found, wherever they are. -/
theorem detect_inserted (h : d.detect files o = .ok result) (hclear : d.cancelled = false)
    (hskip : o.failOnTokenizationError = false) (hk : k ≤ files.length)
    (ht : d.registry.get? (file.languageOr o.language) = some t) (hempty : YieldsNothing o t file k)
    (halike : ReadsAlikeFrom d.registry o files k)
    (hroom : failure? o ((file, t), k) = none →
      result.statistics.totalTokens + result.statistics.tokenizedFiles < maxPositions) :
    ∃ result', d.detect (files.insertIdx k file) o = .ok result' ∧
      result.Gains result' k (failure? o ((file, t), k)) := by
  obtain ⟨pre, post, rfl, rfl⟩ : ∃ pre post, files = pre ++ post ∧ k = pre.length :=
    ⟨files.take k, files.drop k, (List.take_append_drop k files).symm, (List.length_take_of_le hk).symm⟩
  have hinsert : (pre ++ post).insertIdx pre.length file = pre ++ file :: post := insertIdx_append_length _ _ _
  obtain ⟨hv, corpus, warnings, found, hb, hf, rfl⟩ := detect_eq_ok_iff.mp h
  obtain rfl : corpus = ofFiles (gathered d.registry o (pre ++ post)) := build_eq_ok hb
  obtain rfl : warnings = failures d.registry o (pre ++ post) := failures_of_build hb
  have hw := widens_gathered halike hempty
  simp only [size_files, size_tokens] at hroom
  have hb' := build_insert halike (hclear ▸ hb) hskip ht hempty hroom
  rw [← hclear] at hb'
  have hf' := hw.outcomes_eq (gathered_append (r := d.registry) (o := o) pre post ▸ hf)
  rw [← gathered_insert ht] at hf'
  rw [hinsert]
  refine ⟨_, detect_eq_ok_iff.mpr ⟨hv, _, _, found.map (·.renumbered (makeRoom pre.length 1)), hb', hf', rfl⟩,
    ?_, ?_, ?_⟩
  · exact report_renumbered hw.mono found
  · obtain ⟨haccepted, hrefused⟩ := length_toList o ((file, t), pre.length)
    have hlate := (forall₂_gatheredFrom halike).length_eq
    simp only [size_files, size_tokens, gathered_insert ht, gathered_append, failures_insert ht, failures_append,
      failuresFrom_succ halike, hw.sum_length_eq, count_renumbered, report_renumbered hw.mono, List.length_append,
      List.length_map, List.length_cons, haccepted, hrefused, hlate, DetectionStatistics.mk.injEq, and_true]
    exact ⟨rfl, by omega, by omega⟩
  · exact ⟨_, _, failures_append pre post, by rw [failures_insert ht, failuresFrom_succ halike]⟩

theorem detect_inserted_words : ∃ result,
    detect { registry := .register .empty (.words "words" []) [] } [⟨"a", "x y", none⟩, ⟨"b", "x y", none⟩]
      { minimumTokens := 2, language := "words" } = .ok result ∧ result.duplications.length = 1 ∧
    ∃ result', detect { registry := .register .empty (.words "words" []) [] }
      ([⟨"a", "x y", none⟩, ⟨"b", "x y", none⟩].insertIdx 1 ⟨"c", "  ", none⟩)
      { minimumTokens := 2, language := "words" } = .ok result' ∧
    result.Gains result' 1
      (failure? { minimumTokens := 2, language := "words" } ((⟨"c", "  ", none⟩, .words "words" []), 1)) :=
  ⟨_, by cbv, rfl, detect_inserted (d := { registry := .register .empty (.words "words" []) [] })
    (by cbv) rfl rfl (by decide) (by cbv) (fun _ h => (Except.ok.inj h).symm.trans (by cbv))
    (readsAlikeFrom_words _ _ _ _) fun _ => by decide⟩

/-- A file without tokens matters to a run that is to end before its first file, and if a tokenizer looks at the number
of a file. -/
theorem detect_depends_on_empty_file :
    (∃ result, detect { registry := .register .empty (.words "words" []) [], cancelled := true } []
        { language := "words" } = .ok result ∧
      YieldsNothing { language := "words" } (.words "words" []) ⟨"a", "", none⟩ 0 ∧
      detect { registry := .register .empty (.words "words" []) [], cancelled := true }
        (([] : List SourceFile).insertIdx 0 ⟨"a", "", none⟩) { language := "words" } = .error (.cancelled 0)) ∧
    (∃ result result',
      detect { registry := .register .empty ⟨"first", [], false, fun source file _ =>
          ⟨if file = 0 ∧ source ≠ "" then List.replicate 2 ⟨.identifier, some source, file, ⟨1, 1⟩, ⟨1, 1⟩⟩ else [],
            none⟩⟩ [] }
        [⟨"a", "x", none⟩] { minimumTokens := 1, language := "first" } = .ok result ∧
      YieldsNothing { minimumTokens := 1, language := "first" } ⟨"first", [], false, fun source file _ =>
          ⟨if file = 0 ∧ source ≠ "" then List.replicate 2 ⟨.identifier, some source, file, ⟨1, 1⟩, ⟨1, 1⟩⟩ else [],
            none⟩⟩ ⟨"b", "", none⟩ 0 ∧
      detect { registry := .register .empty ⟨"first", [], false, fun source file _ =>
          ⟨if file = 0 ∧ source ≠ "" then List.replicate 2 ⟨.identifier, some source, file, ⟨1, 1⟩, ⟨1, 1⟩⟩ else [],
            none⟩⟩ [] }
        ([⟨"a", "x", none⟩].insertIdx 0 ⟨"b", "", none⟩) { minimumTokens := 1, language := "first" } = .ok result' ∧
      result.duplications.length = 1 ∧ result'.duplications = []) :=
  ⟨⟨_, by cbv, fun _ h => (Except.ok.inj h).symm.trans (by cbv), by cbv⟩,
    _, _, by cbv, fun _ h => (Except.ok.inj h).symm.trans (by cbv), by cbv, rfl, rfl⟩

end Detector

end CodeClones
