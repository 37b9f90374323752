import Mathlib
import CodeClones.Proofs.Detection.Renaming
import CodeClones.Proofs.Detection.Soundness
import CodeClones.Proofs.Duplication.Order
import CodeClones.Proofs.Insertion.Gathering
import CodeClones.Proofs.Reordering.Groups

/-! A report is in one order, strictly, and does not depend on the order of buckets. -/

namespace CodeClones

open Corpus Duplication Success

variable {d : Detector} {files : List SourceFile} {o : Options} {result : Detection} {dup : Duplication}
  {given : List TokenizedFile} {f g : TokenizedFile} {x y : Occurrence} {c : Corpus} {r : Repeat} {outcome : Outcome}
  {chain : List ℕ} {hash : UInt64} {length p q k l i j : ℕ}

/-! ### The order of the occurrences -/

lemma Occurrence.place_lt_iff : x.place < y.place ↔ x.file < y.file ∨ x.file = y.file ∧ x.first.Before y.first := by
  simp only [place, Prod.Lex.toLex_lt_toLex, Position.Before]

lemma Occurrence.startingPoint_lt_iff : toLex x.startingPoint < toLex y.startingPoint ↔
    x.file < y.file ∨ x.file = y.file ∧ x.startToken < y.startToken :=
  Prod.Lex.toLex_lt_toLex

namespace Duplication

lemma sorted_of_ofChain (h : ofChain c length hash chain = .ok dup) :
    dup.occurrences.Pairwise fun x y => (x.compare y).isLE = true := by
  rw [ofChain_def] at h
  obtain ⟨found, -, h⟩ := bind_eq_ok.mp h
  obtain rfl := Except.ok.inj h
  exact @List.pairwise_mergeSort Occurrence (fun x y => (x.compare y).isLE) (fun _ _ _ => Occurrence.compare_trans)
    Occurrence.compare_total found

lemma sorted_of_outcomeOf (h : outcomeOf c r = .ok outcome) (hd : dup ∈ outcome.duplications) :
    dup.occurrences.Pairwise fun x y => (x.compare y).isLE = true := by
  obtain ⟨hash, chain, hof⟩ := exists_ofChain_of_outcomeOf h hd
  exact sorted_of_ofChain hof

lemma Tells.before (h : Tells f length i x) (h' : Tells f length j y) (hij : i < j)
    (ht : f.tokens.Pairwise fun t u => t.first.Before u.first) : x.first.Before y.first := by
  obtain ⟨t, hti, he⟩ := Option.map_eq_some_iff.mp h.first
  obtain ⟨u, huj, he'⟩ := Option.map_eq_some_iff.mp h'.first
  obtain ⟨hi, rfl⟩ := List.getElem?_eq_some_iff.mp hti
  obtain ⟨hj, rfl⟩ := List.getElem?_eq_some_iff.mp huj
  rw [← he, ← he']
  exact List.pairwise_iff_getElem.mp ht i j hi hj hij

lemma Tells.lt_of_isLE (hu : given.Pairwise fun f g => f.inputIndex < g.inputIndex)
    (ht : ∀ f ∈ given, f.tokens.Pairwise fun t u => t.first.Before u.first)
    (hlies : LiesIn given length p k i f) (hx : Tells f length i x)
    (hlies' : LiesIn given length q l j g) (hy : Tells g length j y)
    (hne : x.file = y.file → x.startToken ≠ y.startToken) (hle : (x.compare y).isLE = true) :
    toLex x.startingPoint < toLex y.startingPoint ∧ x.place < y.place := by
  rw [Occurrence.isLE_compare] at hle
  rw [Occurrence.startingPoint_lt_iff, Occurrence.place_lt_iff]
  by_cases hfile : x.file = y.file
  · have hkl : k = l := index_unique hu hlies.file hlies'.file (by rw [← hx.file, ← hy.file, hfile])
    subst hkl
    obtain rfl : f = g := Option.some.inj (hlies.file.symm.trans hlies'.file)
    have htokens := ht f (List.mem_of_getElem? hlies.file)
    have hij := hne hfile
    rw [hx.startToken, hy.startToken] at hij ⊢
    rcases Nat.lt_or_gt_of_ne hij with hlt | hgt
    · exact ⟨.inr ⟨hfile, hlt⟩, .inr ⟨hfile, hx.before hy hlt htokens⟩⟩
    · have hback : y.place < x.place := Occurrence.place_lt_iff.mpr (.inr ⟨hfile.symm, hy.before hx hgt htokens⟩)
      rcases hle with hlt | ⟨he, -⟩
      · exact absurd hlt hback.asymm
      · exact absurd he hback.ne'
  · have hlt : x.file < y.file := by
      rcases hle with hlt | ⟨he, -⟩
      · exact (Occurrence.place_lt_iff.mp hlt).resolve_right fun hno => hfile hno.1
      · exact absurd (congrArg (fun z => (ofLex z).1) he) hfile
    exact ⟨.inl hlt, .inl hlt⟩

end Duplication

namespace Detector

lemma length_bare_lt {source : String} {bound : ℕ} (h : source.length < bound) :
    (Source.dropByteOrderMark source.toList).length < bound := by
  refine (Source.dropByteOrderMark_suffix _).length_le.trans_lt ?_
  rwa [String.length_toList]

lemma pairwise_first_of_mem (hlen : ∀ file ∈ files, file.source.length < maxCoordinate)
    (hf : f ∈ gathered .builtin o files) : f.tokens.Pairwise fun t u => t.first.Before u.first := by
  obtain ⟨file, l, hl, hfile, -, htokens⟩ := exists_language_of_mem hf
  rw [htokens]
  exact l.pairwise_first hl (length_bare_lt (hlen file (List.mem_of_getElem? hfile))) _ _

lemma lt_occurrences (hd : d.registry = .builtin) (hlen : ∀ file ∈ files, file.source.length < maxCoordinate)
    (h : d.detect files o = .ok result) (hdup : dup ∈ result.duplications) : dup.occurrences.Pairwise fun x y =>
      toLex x.startingPoint < toLex y.startingPoint ∧ x.place < y.place := by
  have hu := pairwise_inputIndex d.registry o files
  obtain ⟨r, pair, hl, hpos, hmax, hp, hof⟩ := exists_repeat h hdup
  obtain ⟨-, -, hle, -, -⟩ := mem_maximalPairs.mp hp
  have hdisjoint := disjoint_occurrences hof (chainThrough_pairwise _ hle) hu
  have hsorted : dup.occurrences.Pairwise fun x y => (x.compare y).isLE = true := by
    obtain ⟨-, found, hf, he⟩ := detect_eq_ok h
    obtain ⟨outcome, ho, hm⟩ := mem_report.mp (he ▸ hdup)
    obtain ⟨r, -, hr⟩ := exists_of_mem_right (outcomes_eq_ok hf) ho
    exact sorted_of_outcomeOf hr hm
  refine (hsorted.and hdisjoint).imp_of_mem fun {x y} hx hy hxy => ?_
  obtain ⟨p, -, k, i, f, hlies, htells⟩ := hof.exists_position hx
  obtain ⟨q, -, l, j, g, hlies', htells'⟩ := hof.exists_position hy
  refine Tells.lt_of_isLE hu (fun f hf => pairwise_first_of_mem hlen (hd ▸ hf)) hlies htells hlies' htells' ?_ hxy.1
  intro hfile
  have := hxy.2 hfile
  omega

/-! ### The order of the duplications -/

lemma reading_eq_of_rank {a b : Duplication} (h : a.rank = b.rank) : a.reading id = b.reading id := by
  simp only [rank, EmbeddingLike.apply_eq_iff_eq, Prod.mk.injEq] at h
  obtain ⟨htokens, -, -, hpoints⟩ := h
  refine Prod.ext htokens (Set.ext fun z => ?_)
  have hmem := congrArg (toLex z ∈ ·) hpoints
  simpa [reading, List.mem_map, Occurrence.startingPoint] using hmem

lemma lt_duplications (h : d.detect files o = .ok result) :
    result.duplications.Pairwise fun a b => a.rank < b.rank := by
  obtain ⟨-, found, hf, he⟩ := detect_eq_ok h
  have hnodup := nodup_readings (numbers_gathered (Equiv.refl ℕ) fun _ => rfl) hf
  rw [he]
  refine ((pairwise_report found).and (List.pairwise_map.mp hnodup)).imp fun {a b} hab => ?_
  exact lt_of_le_of_ne hab.1 fun hrank => hab.2 (reading_eq_of_rank hrank)

end Detector

/-! ### The order of the buckets -/

section Arranged

def Detector.detectArranged (arrange : Array ℕ → Repeat → List (List ℕ)) (d : Detector) (files : List SourceFile)
    (o : Options) : Except RunError Detection :=
  plain (detectM (fun keys r => pure (arrange keys r)) d files o)

variable {arrange : Array ℕ → Repeat → List (List ℕ)}
  (h : ∀ keys r, (arrange keys r).Perm (buckets keys r.positions))

include h

lemma Duplication.outcomeOfM_arranged (c : Corpus) (r : Repeat) :
    outcomeOfM (fun keys r => (pure (arrange keys r) : Id _)) c r = outcomeOfM groupByBucketM c r := by
  have hpairs : maximalPairsIn c.keys r.length (arrange c.keys r) =
      maximalPairsIn c.keys r.length (buckets c.keys r.positions) :=
    maximalPairsIn_perm (h c.keys r) _ _
  have hgroups : (groupByBucketM c.keys r : Id _) = pure (buckets c.keys r.positions) := rfl
  simp only [outcomeOfM, hgroups, lift_pure, pure_bind, hpairs]

lemma Detector.detectArranged_eq (d : Detector) (files : List SourceFile) (o : Options) :
    d.detectArranged arrange files o = d.detect files o := by
  have houtcomes : ∀ c : Corpus, outcomesM (fun keys r => (pure (arrange keys r) : Id _)) c o.minimumTokens =
      outcomesM groupByBucketM c o.minimumTokens := fun c => by
    rw [outcomesM, outcomesM, funext (outcomeOfM_arranged h c)]
  simp only [detectArranged, detect, detectM, houtcomes]

end Arranged

namespace Detector

/-- Reports have one order. The occurrences of a duplication come in the order of tokens, which is that of places, and
the duplications in the order of their ranks, each once, in whichever order the buckets of positions come. -/
theorem detect_ordered (hd : d.registry = .builtin) (hlen : ∀ file ∈ files, file.source.length < maxCoordinate)
    (h : d.detect files o = .ok result) :
    (∀ dup ∈ result.duplications,
      dup.occurrences.Pairwise (fun x y => toLex x.startingPoint < toLex y.startingPoint) ∧
      dup.occurrences.Pairwise fun x y => x.place < y.place) ∧
    (result.duplications.Pairwise fun a b => a.rank < b.rank) ∧ result.duplications.Nodup ∧
    ∀ arrange : Array ℕ → Repeat → List (List ℕ),
      (∀ keys r, (arrange keys r).Perm (buckets keys r.positions)) →
        d.detectArranged arrange files o = .ok result := by
  have hstrict := lt_duplications h
  refine ⟨fun dup hdup => ?_, hstrict, hstrict.imp fun {a b} hab he => hab.ne (congrArg rank he), ?_⟩
  · have hpairs := lt_occurrences hd hlen h hdup
    exact ⟨hpairs.imp And.left, hpairs.imp And.right⟩
  · intro arrange ha
    rw [detectArranged_eq ha, h]

set_option maxRecDepth 20000 in
theorem detect_ordered_text : ∃ result,
    detect {} [⟨"a", "x y z x y", none⟩, ⟨"b", "z x y", none⟩] { minimumTokens := 2, language := "text" } =
      .ok result ∧ result.duplications.length = 2 ∧
    (result.duplications.Pairwise fun a b => a.rank < b.rank) ∧
    ∀ arrange : Array ℕ → Repeat → List (List ℕ),
      (∀ keys r, (arrange keys r).Perm (buckets keys r.positions)) →
        detectArranged arrange {} [⟨"a", "x y z x y", none⟩, ⟨"b", "z x y", none⟩]
          { minimumTokens := 2, language := "text" } = .ok result := by
  have h : ∃ result, detect {} [⟨"a", "x y z x y", none⟩, ⟨"b", "z x y", none⟩]
      { minimumTokens := 2, language := "text" } = .ok result ∧ result.duplications.length = 2 := ⟨_, by cbv, rfl⟩
  obtain ⟨result, hr, hl⟩ := h
  have hordered := detect_ordered rfl (by decide) hr
  exact ⟨result, hr, hl, hordered.2.1, hordered.2.2.2⟩

end Detector

end CodeClones
