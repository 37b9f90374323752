import Mathlib
import CodeClones.Proofs.Detection.Reported

/-! What a report says is so: its runs are where it says, they are equal, and they do not overlap. -/

namespace CodeClones

structure Occurrence.IsIn (x : Occurrence) (length : ℕ) (file : SourceFile) (tokens : List Token) : Prop where
  path : x.path = file.path
  room : x.startToken + length ≤ tokens.length
  first : tokens[x.startToken]?.map (·.first) = some x.first
  last : tokens[x.startToken + length - 1]?.map (·.last) = some x.last

open Corpus Duplication Success

/-- A duplication is one: it is long enough, its occurrences are where they say among the tokens that their
files have when they are tokenized again, agree in the keys of their tokens, and do not overlap. -/
structure Duplication.IsGenuine (r : Registry) (o : Options) (files : List SourceFile) (dup : Duplication) :
    Prop where
  long : o.minimumTokens ≤ dup.tokens
  several : 2 ≤ dup.occurrences.length
  places : ∀ x ∈ dup.occurrences, ∃ file tokens, files[x.file]? = some file ∧
    tokensOf? r o files x.file = some tokens ∧ x.IsIn dup.tokens file tokens
  equal : ∀ x ∈ dup.occurrences, ∀ y ∈ dup.occurrences, ∀ s t, tokensOf? r o files x.file = some s →
    tokensOf? r o files y.file = some t → ∀ n < dup.tokens,
      s[x.startToken + n]?.map (·.key) = t[y.startToken + n]?.map (·.key)
  disjoint : dup.occurrences.Pairwise fun x y => x.file = y.file →
    x.startToken + dup.tokens ≤ y.startToken ∨ y.startToken + dup.tokens ≤ x.startToken

namespace Detector

variable {d : Detector} {files : List SourceFile} {o : Options} {result : Detection} {dup : Duplication}
  {given : List TokenizedFile} {chain : List ℕ} {r : Registry} {f : TokenizedFile} {x : Occurrence}
  {length p k i : ℕ}

lemma disjoint_occurrences (h : OfChain given length chain dup) (hc : chain.Pairwise (Apart length))
    (hu : given.Pairwise fun f g => f.inputIndex < g.inputIndex) :
    dup.occurrences.Pairwise fun x y => x.file = y.file →
      x.startToken + length ≤ y.startToken ∨ y.startToken + length ≤ x.startToken := by
  obtain ⟨found, hf, hp⟩ := h.occurrences
  refine hp.symm.pairwise ?_ fun {x y} hxy he => (hxy he.symm).symm
  refine pairwise_of_forall₂ hf hc fun p q x y hx hy hpq he => Or.inl ?_
  obtain ⟨k, i, f, hlies, htells⟩ := occurrenceAt_eq_ok hx
  obtain ⟨l, j, g, hlies', htells'⟩ := occurrenceAt_eq_ok hy
  rw [htells.file, htells'.file] at he
  have hkl := index_unique hu hlies.file hlies'.file he
  subst hkl
  have hp := hlies.position
  have hq := hlies'.position
  rw [htells.startToken, htells'.startToken]
  unfold Apart at hpq
  omega

lemma exists_isIn (h : LiesIn (gathered r o files) length p k i f) (ht : Tells f length i x) :
    ∃ file, files[x.file]? = some file ∧ tokensOf? r o files x.file = some f.tokens ∧
      x.IsIn length file f.tokens := by
  obtain ⟨file, hf, hpath, htokens⟩ := tokensOf?_of_mem (List.mem_of_getElem? h.file)
  rw [← ht.file] at hf htokens
  refine ⟨file, hf, htokens, ht.path.trans hpath, ?_, ?_, ?_⟩ <;> rw [ht.startToken]
  · exact h.room
  · exact ht.first
  · exact ht.last

lemma two_le_length (h : OfChain given length chain dup) {pair : ℕ × ℕ} (hne : pair.1 ≠ pair.2)
    (hh : holds chain pair = true) : 2 ≤ dup.occurrences.length := by
  rw [holds, Bool.and_eq_true, List.contains_iff_mem, List.contains_iff_mem] at hh
  rw [h.length_eq]
  exact (pair_subperm hne hh.1 hh.2).length_le

theorem detect_sound (h : d.detect files o = .ok result) :
    ∀ dup ∈ result.duplications, dup.IsGenuine d.registry o files := by
  intro dup hd
  obtain ⟨r, pair, hl, hpos, hmax, hp, hof⟩ := exists_repeat h hd
  obtain ⟨ha, hb, hle, -, -⟩ := mem_maximalPairs.mp hp
  have hheld : holds (chainThrough r.positions r.length pair) pair = true :=
    holds_chainThrough hmax.sorted ha hb (by omega)
  have htokens := hof.tokens
  have hwhere : ∀ x ∈ dup.occurrences, ∃ p ∈ r.positions, ∃ k i f,
      LiesIn (gathered d.registry o files) r.length p k i f ∧ Tells f r.length i x := by
    intro x hx
    obtain ⟨p, hm, hlies⟩ := hof.exists_position hx
    exact ⟨p, mem_of_mem_chainThrough hm, hlies⟩
  refine ⟨by omega, two_le_length hof (by omega) hheld, fun x hx => ?_, fun x hx y hy s t hs ht => ?_, ?_⟩
  · obtain ⟨p, -, k, i, f, hlies, htells⟩ := hwhere x hx
    obtain ⟨file, hf, ht, hin⟩ := exists_isIn hlies htells
    exact ⟨file, f.tokens, hf, ht, htokens.symm ▸ hin⟩
  · obtain ⟨p, hm, k, i, f, hlies, htells⟩ := hwhere x hx
    obtain ⟨q, hm', l, j, g, hlies', htells'⟩ := hwhere y hy
    obtain ⟨-, -, hf, -⟩ := exists_isIn hlies htells
    obtain ⟨-, -, hg, -⟩ := exists_isIn hlies' htells'
    rw [hf, Option.some.injEq] at hs
    rw [hg, Option.some.injEq] at ht
    have hagree := ((Repeat.occurs_iff hpos hm).mp hmax.occurs q).mp hm'
    rw [htells.startToken, htells'.startToken, htokens, ← hs, ← ht]
    rw [hlies.position, hlies'.position] at hagree
    exact (agree_iff hlies.file hlies'.file hlies.room hlies'.room).mp hagree.2
  · rw [htokens]
    exact disjoint_occurrences hof (chainThrough_pairwise _ hle) (pairwise_inputIndex _ _ _)

theorem detect_sound_words : ∃ result,
    detect { registry := .register .empty (.words "words" []) [] } [⟨"a", "x y z x y", none⟩]
      { minimumTokens := 2, language := "words" } = .ok result ∧ result.duplications.length = 1 ∧
    ∀ dup ∈ result.duplications, dup.IsGenuine (.register .empty (.words "words" []) [])
      { minimumTokens := 2, language := "words" } [⟨"a", "x y z x y", none⟩] :=
  ⟨_, by cbv, rfl, detect_sound (d := { registry := .register .empty (.words "words" []) [] }) (by cbv)⟩

end Detector

end CodeClones
