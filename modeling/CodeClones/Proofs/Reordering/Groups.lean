import CodeClones.Proofs.Detection.Reported
import CodeClones.Proofs.Reordering.Places

/-! What is reported of a run: groups of its places, whatever the order of files. -/

namespace CodeClones

open Corpus Duplication

variable {given : List TokenizedFile} {number : ℕ → ℕ} {texts : Texts} {p q length : ℕ} {run : List Key} {r : Repeat}
  {x y : ℕ × ℕ} {pair : ℕ × ℕ} {chain : List ℕ} {dup : Duplication} {outcome : Outcome}

def Duplication.reading (number : ℕ → ℕ) (dup : Duplication) : ℕ × Set (ℕ × ℕ) :=
  (dup.tokens, {z | ∃ x ∈ dup.occurrences, (number x.file, x.startToken) = z})

namespace Corpus

def placesOf (given : List TokenizedFile) (number : ℕ → ℕ) (chain : List ℕ) : Set (ℕ × ℕ) :=
  {z | ∃ p ∈ chain, placeAt given number p = z}

lemma reading_of_ofChain (h : OfChain given length chain dup) (number : ℕ → ℕ) :
    dup.reading number = (length, placesOf given number chain) := by
  rw [Duplication.reading, h.tokens, placesOf]
  refine congrArg (Prod.mk length) (Set.ext fun z => ⟨?_, ?_⟩)
  · rintro ⟨x, hx, rfl⟩
    obtain ⟨p, hp, k, i, f, hf, htells⟩ := h.exists_position hx
    exact ⟨p, hp, by rw [hf.placeAt_eq, htells.file, htells.startToken]⟩
  · rintro ⟨p, hp, rfl⟩
    obtain ⟨x, hx, k, i, f, hf, htells⟩ := h.exists_occurrence hp
    exact ⟨x, hx, by rw [hf.placeAt_eq, htells.file, htells.startToken]⟩

end Corpus

namespace Texts.IsRepeatOf

variable (ht : texts.IsRepeatOf number given run r) (h : texts.Numbers number given) (hrun : run ≠ [])

include ht h hrun

lemma mem_maximalPairs_iff : (p, q) ∈ maximalPairs (ofFiles given).keys r.positions r.length ↔
    p < q ∧ p ∈ r.positions ∧ q ∈ r.positions ∧
      texts.IsMaximalPair run (placeAt given number p) (placeAt given number q) := by
  have hpos := List.length_pos_iff.mpr hrun
  rw [mem_maximalPairs, ht.length]
  constructor
  · rintro ⟨hp, hq, hle, hbefore, hbehind⟩
    obtain ⟨⟨k, i, f, hf⟩, hop⟩ := (ht.mem_iff p).mp hp
    obtain ⟨⟨l, j, g, hg⟩, hoq⟩ := (ht.mem_iff q).mp hq
    have hlt : p < q := by omega
    exact ⟨hlt, hp, hq, hop, hoq, (h.add_le_iff hf hg hlt).mp hle,
      fun hb => hbefore ((h.before?_eq_iff hf hg hlt.ne).mpr hb),
      fun hb => hbehind ((h.behind?_eq_iff hf hg hlt.ne).mpr hb)⟩
  · rintro ⟨hlt, hp, hq, hpair⟩
    obtain ⟨⟨k, i, f, hf⟩, -⟩ := (ht.mem_iff p).mp hp
    obtain ⟨⟨l, j, g, hg⟩, -⟩ := (ht.mem_iff q).mp hq
    exact ⟨hp, hq, (h.add_le_iff hf hg hlt).mpr hpair.apart,
      fun hb => hpair.before ((h.before?_eq_iff hf hg hlt.ne).mp hb),
      fun hb => hpair.behind ((h.behind?_eq_iff hf hg hlt.ne).mp hb)⟩

lemma exists_mem_maximalPairs (hxy : texts.IsMaximalPair run x y) :
    ∃ pair ∈ maximalPairs (ofFiles given).keys r.positions r.length,
      placeAt given number pair.1 = x ∧ placeAt given number pair.2 = y ∨
        placeAt given number pair.1 = y ∧ placeAt given number pair.2 = x := by
  obtain ⟨p, hp, rfl⟩ := ht.exists_mem h hrun hxy.left
  obtain ⟨q, hq, rfl⟩ := ht.exists_mem h hrun hxy.right
  rcases Nat.lt_trichotomy p q with hlt | rfl | hlt
  · exact ⟨(p, q), (ht.mem_maximalPairs_iff h hrun).mpr ⟨hlt, hp, hq, hxy⟩, Or.inl ⟨rfl, rfl⟩⟩
  · have hpos := List.length_pos_iff.mpr hrun
    have := hxy.apart rfl
    omega
  · exact ⟨(q, p), (ht.mem_maximalPairs_iff h hrun).mpr ⟨hlt, hq, hp, hxy.symm⟩, Or.inr ⟨rfl, rfl⟩⟩

omit hrun in
lemma placeAt_eq_iff (hp : p ∈ r.positions) (hq : q ∈ r.positions) :
    placeAt given number p = placeAt given number q ↔ p = q :=
  not_iff_not.mp (ht.ne_iff h hp hq)

lemma forall_iff {S A : ℕ → Prop} {Z B : ℕ × ℕ → Prop} (hS : ∀ q, S q → q ∈ r.positions)
    (hZ : ∀ z, Z z → texts.Occurs run z) (hSZ : ∀ q ∈ r.positions, S q ↔ Z (placeAt given number q))
    (hAB : ∀ q ∈ r.positions, A q ↔ B (placeAt given number q)) :
    (∀ q, S q → A q) ↔ ∀ z, Z z → B z := by
  constructor
  · intro hall z hz
    obtain ⟨q, hq, rfl⟩ := ht.exists_mem h hrun (hZ z hz)
    exact (hAB q hq).mp (hall q ((hSZ q hq).mpr hz))
  · intro hall q hq
    exact (hAB q (hS q hq)).mpr (hall _ ((hSZ q (hS q hq)).mp hq))

lemma placesOf_chainThrough (hs : r.positions.Pairwise (· < ·))
    (hpair : pair ∈ maximalPairs (ofFiles given).keys r.positions r.length) :
    placesOf given number (chainThrough r.positions r.length pair) =
      texts.group run (placeAt given number pair.1) (placeAt given number pair.2) := by
  obtain ⟨hlt, h1, h2, hxy⟩ := (ht.mem_maximalPairs_iff h hrun).mp hpair
  have hchain : ∀ q, q ∈ chainThrough r.positions r.length pair → q ∈ r.positions := fun q => mem_of_mem_chainThrough
  have hocc : ∀ q ∈ r.positions, texts.Occurs run (placeAt given number q) := fun q hq => ((ht.mem_iff q).mp hq).2
  have hplaces : ∀ q ∈ r.positions, q ∈ chainThrough r.positions r.length pair ↔
      placeAt given number q ∈ placesOf given number (chainThrough r.positions r.length pair) := by
    refine fun q hq => ⟨fun hm => ⟨q, hm, rfl⟩, ?_⟩
    rintro ⟨q', hm, he⟩
    exact (ht.placeAt_eq_iff h (hchain q' hm) hq).mp he ▸ hm
  have hends : ∀ q ∈ r.positions, (q = pair.1 ∨ q = pair.2) ↔
      placeAt given number q = placeAt given number pair.1 ∨ placeAt given number q = placeAt given number pair.2 :=
    fun q hq => or_congr (ht.placeAt_eq_iff h hq h1).symm (ht.placeAt_eq_iff h hq h2).symm
  have hroom : ∀ p ∈ r.positions, ∀ q ∈ r.positions, (p < q → p + r.length ≤ q) ↔
      ((placeAt given number p).1 = (placeAt given number q).1 →
        (placeAt given number p).2 < (placeAt given number q).2 →
          (placeAt given number p).2 + run.length ≤ (placeAt given number q).2) := by
    intro p hp q hq
    obtain ⟨⟨k, i, f, hf⟩, -⟩ := (ht.mem_iff p).mp hp
    obtain ⟨⟨l, j, g, hg⟩, -⟩ := (ht.mem_iff q).mp hq
    rw [ht.length]
    exact h.lt_imp_add_le_iff hf hg
  refine group_unique hxy.left hxy.right fun z => ?_
  by_cases hz : texts.Occurs run z
  · obtain ⟨p, hp, rfl⟩ := ht.exists_mem h hrun hz
    rw [← hplaces p hp, mem_chainThrough_iff hs h1 h2 hlt, and_iff_right hp, and_iff_right hz]
    refine or_congr (hends p hp) (and_congr ?_ ?_)
    · refine ht.forall_iff h hrun hchain ?_ hplaces fun q hq => hroom q hq p hp
      rintro z ⟨q, hq, rfl⟩
      exact hocc q (hchain q hq)
    · refine ht.forall_iff h hrun ?_ ?_ hends fun q hq => ?_
      · rintro q (rfl | rfl)
        · exact h1
        · exact h2
      · rintro z (rfl | rfl)
        · exact hxy.left
        · exact hxy.right
      · rw [hroom p hp q hq, eq_comm]
  · refine iff_of_false ?_ fun hno => hz hno.1
    rintro ⟨q, hq, rfl⟩
    exact hz (hocc q (hchain q hq))

lemma nodup_map_coverPairs (hs : r.positions.Pairwise (· < ·)) :
    ((coverPairs r.positions r.length (maximalPairs (ofFiles given).keys r.positions r.length)).map
      fun chain => (r.length, placesOf given number chain)).Nodup := by
  have hheld : ∀ pair ∈ maximalPairs (ofFiles given).keys r.positions r.length,
      holds (chainThrough r.positions r.length pair) pair = true := by
    intro pair hp
    obtain ⟨hlt, h1, h2, -⟩ := (ht.mem_maximalPairs_iff h hrun).mp hp
    exact holds_chainThrough hs h1 h2 hlt
  refine List.pairwise_map.mpr ((coverPairs_pairwise hheld).imp_of_mem ?_)
  rintro c c' hc hc' ⟨pair, hin, hout⟩ he
  have hplaces := (Prod.mk.inj he).2
  have hmem : ∀ p ∈ c', p ∈ c := by
    intro p hp
    obtain ⟨q, hq, hqp⟩ : placeAt given number p ∈ placesOf given number c := hplaces ▸ ⟨p, hp, rfl⟩
    rwa [(ht.placeAt_eq_iff h (mem_of_mem_coverPairs hc hq) (mem_of_mem_coverPairs hc' hp)).mp hqp] at hq
  obtain ⟨h1, h2⟩ := holds_iff.mp hin
  rw [holds_iff.mpr ⟨hmem _ h1, hmem _ h2⟩] at hout
  exact absurd hout (by decide)

end Texts.IsRepeatOf

namespace Texts

structure Reports (texts : Texts) (minimum : ℕ) (readings : List (ℕ × Set (ℕ × ℕ))) : Prop where
  nodup : readings.Nodup
  group : ∀ reading ∈ readings, ∃ run x y, minimum ≤ run.length ∧ texts.IsMaximalPair run x y ∧
    reading = (run.length, texts.group run x y)
  told : ∀ run x y, minimum ≤ run.length → texts.IsMaximalPair run x y →
    ∃ reading ∈ readings, reading.1 = run.length ∧ x ∈ reading.2 ∧ y ∈ reading.2

/-- Two reports on the same texts. They can only differ in runs that overlap themselves in a text, and there in
which of the pairs they have a group for. -/
structure SameReports (texts : Texts) (minimum : ℕ) (readings readings' : List (ℕ × Set (ℕ × ℕ))) : Prop where
  left : texts.Reports minimum readings
  right : texts.Reports minimum readings'
  free : ∀ run places, texts.IsOverlapFree run → (∃ z ∈ places, texts.Occurs run z) →
    ((run.length, places) ∈ readings ↔ (run.length, places) ∈ readings')
  perm : (∀ run, minimum ≤ run.length → texts.IsMaximal run → texts.IsOverlapFree run) → readings.Perm readings'

variable {minimum : ℕ} {readings readings' : List (ℕ × Set (ℕ × ℕ))} {places : Set (ℕ × ℕ)} {z : ℕ × ℕ}

lemma Reports.mem_iff (h : texts.Reports minimum readings) (hfree : texts.IsOverlapFree run) (hz : z ∈ places)
    (ho : texts.Occurs run z) : (run.length, places) ∈ readings ↔
      minimum ≤ run.length ∧ (∃ x y, texts.IsMaximalPair run x y) ∧ places = {z | texts.Occurs run z} := by
  constructor
  · intro hm
    obtain ⟨run', x, y, hl, hxy, he⟩ := h.group _ hm
    obtain ⟨hlen, rfl⟩ := Prod.mk.inj he
    obtain rfl := run_eq ho (occurs_of_mem_group hz) hlen
    exact ⟨hl, ⟨x, y, hxy⟩, group_eq_of_isOverlapFree hfree hxy.left hxy.right⟩
  · rintro ⟨hl, ⟨x, y, hxy⟩, rfl⟩
    obtain ⟨reading, hm, hlen, hx, -⟩ := h.told run x y hl hxy
    obtain ⟨run', x', y', -, hxy', rfl⟩ := h.group _ hm
    obtain rfl := run_eq hxy.left (occurs_of_mem_group hx) hlen.symm
    rwa [group_eq_of_isOverlapFree hfree hxy'.left hxy'.right] at hm

lemma Reports.same (h : texts.Reports minimum readings) (h' : texts.Reports minimum readings') (hpos : 0 < minimum) :
    texts.SameReports minimum readings readings' := by
  have hfree : ∀ run places, texts.IsOverlapFree run → (∃ z ∈ places, texts.Occurs run z) →
      ((run.length, places) ∈ readings ↔ (run.length, places) ∈ readings') := by
    rintro run places hfree ⟨z, hz, ho⟩
    rw [h.mem_iff hfree hz ho, h'.mem_iff hfree hz ho]
  refine ⟨h, h', hfree, fun hall => (List.perm_ext_iff_of_nodup h.nodup h'.nodup).mpr fun reading => ?_⟩
  have hgroup : ∀ run x y, minimum ≤ run.length → texts.IsMaximalPair run x y →
      ((run.length, texts.group run x y) ∈ readings ↔ (run.length, texts.group run x y) ∈ readings') := by
    intro run x y hl hxy
    have hrun : run ≠ [] := List.ne_nil_of_length_pos (hpos.trans_le hl)
    exact hfree run _ (hall run hl (hxy.isMaximal hrun)) ⟨x, left_mem_group hxy.left hxy.right, hxy.left⟩
  constructor
  · intro hm
    obtain ⟨run, x, y, hl, hxy, rfl⟩ := h.group reading hm
    exact (hgroup run x y hl hxy).mp hm
  · intro hm
    obtain ⟨run, x, y, hl, hxy, rfl⟩ := h'.group reading hm
    exact (hgroup run x y hl hxy).mpr hm

end Texts

namespace Detector

open Success Texts

variable {d : Detector} {files : List SourceFile} {o : Options} {result : Detection} {minimum : ℕ}
  {found : List Outcome}

lemma readings_perm (number : ℕ → ℕ) (h : outcomes (ofFiles given) minimum = .ok found) :
    ((report found).map (·.reading number)).Perm
      ((Repeat.all (ofFiles given).keys (.build (ofFiles given).keys) minimum).flatMap fun r =>
        (coverPairs r.positions r.length (maximalPairs (ofFiles given).keys r.positions r.length)).map
          fun chain => (r.length, placesOf given number chain)) := by
  have hmap : ∀ r outcome, outcomeOf (ofFiles given) r = .ok outcome →
      ((coverPairs r.positions r.length (maximalPairs (ofFiles given).keys r.positions r.length)).map
        fun chain => (r.length, placesOf given number chain)) = outcome.duplications.map (·.reading number) :=
    fun r outcome ho => map_eq_of_forall₂ (outcomeOf_eq_ok ho) fun chain dup hof => (reading_of_ofChain hof number).symm
  rw [List.flatMap_def, map_eq_of_forall₂ (outcomes_eq_ok h) hmap, ← List.flatMap_def, ← List.map_flatMap]
  exact (List.mergeSort_perm _ _).map _

lemma nodup_readings (hn : texts.Numbers number given) (h : outcomes (ofFiles given) minimum = .ok found) :
    ((report found).map (·.reading number)).Nodup := by
  have hi := SuffixIndex.build_indexes (ofFiles given).keys
  rw [(readings_perm number h).nodup_iff, List.nodup_flatMap]
  constructor
  · intro r hr
    obtain ⟨hl, hmax⟩ := (Repeat.mem_all hi).mp hr
    have hpos : 0 < r.length := by omega
    exact (hn.isRepeatOf_runOf hmax hpos).nodup_map_coverPairs hn (runOf_ne_nil hn hmax hpos) hmax.sorted
  · refine (Repeat.nodup_all hi minimum).imp_of_mem fun {r r'} hr hr' hne => ?_
    obtain ⟨hl, hmax⟩ := (Repeat.mem_all hi).mp hr
    obtain ⟨hl', hmax'⟩ := (Repeat.mem_all hi).mp hr'
    have hpos : 0 < r.length := by omega
    have hpos' : 0 < r'.length := by omega
    have ht := hn.isRepeatOf_runOf hmax hpos
    have ht' := hn.isRepeatOf_runOf hmax' hpos'
    intro reading hin hin'
    obtain ⟨chain, hc, rfl⟩ := List.mem_map.mp hin
    obtain ⟨chain', hc', he⟩ := List.mem_map.mp hin'
    obtain ⟨hlen, hplaces⟩ := Prod.mk.inj he
    obtain ⟨pair, hp, rfl⟩ := exists_pair_of_mem_coverPairs hc
    have hm := (ends_mem_chainThrough hp hmax.sorted).1
    obtain ⟨q, hq, hqp⟩ : placeAt given number pair.1 ∈ placesOf given number chain' := hplaces ▸ ⟨_, hm, rfl⟩
    have hocc := ((ht.mem_iff _).mp (mem_of_mem_chainThrough hm)).2
    have hocc' := ((ht'.mem_iff _).mp (mem_of_mem_coverPairs hc' hq)).2
    rw [hqp] at hocc'
    exact hne (runOf_inj hn hmax hmax' hpos hpos' (run_eq hocc hocc' (by rw [← ht.length, ← ht'.length, hlen])))

lemma detect_reports (h : d.detect files o = .ok result)
    (hn : texts.Numbers number (gathered d.registry o files)) :
    texts.Reports o.minimumTokens (result.duplications.map (·.reading number)) := by
  obtain ⟨hpos, found, hf, he⟩ := detect_eq_ok h
  refine ⟨?_, ?_, ?_⟩
  · rw [he]
    exact nodup_readings hn hf
  · intro reading hr
    obtain ⟨dup, hd, rfl⟩ := List.mem_map.mp hr
    obtain ⟨r, pair, hl, hlpos, hmax, hp, hof⟩ := exists_repeat h hd
    have ht := hn.isRepeatOf_runOf hmax hlpos
    have hrun := runOf_ne_nil hn hmax hlpos
    refine ⟨_, _, _, ht.length ▸ hl, ((ht.mem_maximalPairs_iff hn hrun).mp hp).2.2.2, ?_⟩
    rw [reading_of_ofChain hof, ht.placesOf_chainThrough hn hrun hmax.sorted hp, ht.length]
  · intro run x y hl hxy
    have hrun : run ≠ [] := List.ne_nil_of_length_pos (hpos.trans_le hl)
    obtain ⟨r, hs, ht⟩ := exists_isRepeatOf texts number (gathered d.registry o files) run
    have hmax := (ht.isMaximal_iff hn hrun hs).mpr (hxy.isMaximal hrun)
    obtain ⟨pair, hp, hends⟩ := ht.exists_mem_maximalPairs hn hrun hxy
    obtain ⟨dup, hd, chain, hheld, hof⟩ := exists_duplication h (ht.length ▸ hl) hmax hp
    obtain ⟨h1, h2⟩ := holds_iff.mp hheld
    refine ⟨_, List.mem_map_of_mem hd, ?_⟩
    rw [reading_of_ofChain hof]
    rcases hends with ⟨rfl, rfl⟩ | ⟨rfl, rfl⟩
    · exact ⟨ht.length, ⟨_, h1, rfl⟩, _, h2, rfl⟩
    · exact ⟨ht.length, ⟨_, h2, rfl⟩, _, h1, rfl⟩

end Detector

end CodeClones
