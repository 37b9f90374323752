import Mathlib
import CodeClones.Proofs.Detection.Completeness
import CodeClones.Proofs.Reordering.Counts
import CodeClones.Proofs.Reordering.Gathering

/-! A repeat that is not reported has a reason for it, and all repeats are counted. -/

namespace CodeClones

open Corpus Duplication Success

variable {d : Detector} {files : List SourceFile} {o : Options} {result : Detection} {dup : Duplication}
  {given : List TokenizedFile} {number : ℕ → ℕ} {texts : Texts} {run : List Key} {r : Repeat} {outcome : Outcome}
  {f g : TokenizedFile} {reported : List Duplication} {x y : ℕ × ℕ} {s t : List Key} {i j k l p q length : ℕ}

def Duplication.runIn (texts : Texts) (dup : Duplication) : List Key :=
  dup.occurrences.head?.elim [] fun x => (((texts x.file).getD []).drop x.startToken).take dup.tokens

/-- Two places lie at a common offset inside occurrences of a duplication that is longer than the runs there. -/
def Duplication.Covers (dup : Duplication) (length : ℕ) (x y : ℕ × ℕ) : Prop :=
  length < dup.tokens ∧ ∃ offset, offset + length ≤ dup.tokens ∧ ∃ u ∈ dup.occurrences, ∃ v ∈ dup.occurrences,
    (u.file, u.startToken + offset) = x ∧ (v.file, v.startToken + offset) = y

namespace Texts

def OverlapExtended (texts : Texts) (x y : ℕ × ℕ) : Prop :=
  ∃ s t i j length, texts x.1 = some s ∧ texts y.1 = some t ∧ extension s t x.2 y.2 = (i, j, length) ∧
    ¬ Apart length (x.1, i) (y.1, j)

def Tells (texts : Texts) (run : List Key) (outcome : Outcome) : Prop :=
  ∀ duplications, outcome = .reported duplications →
    duplications ≠ [] ∧ ∀ dup ∈ duplications, dup.runIn texts = run

structure Justifies (texts : Texts) (reported : List Duplication) (run : List Key) (outcome : Outcome) : Prop where
  overlapping : outcome = .overlapping ↔ ¬ texts.HasApart run
  contained : outcome = .contained → texts.HasApart run ∧ ∀ x y, x ≠ y → texts.Occurs run x → texts.Occurs run y →
    Apart run.length x y → (∃ dup ∈ reported, dup.Covers run.length x y) ∨ texts.OverlapExtended x y
  told : texts.Tells run outcome
  reported : ∀ dup ∈ outcome.duplications, dup ∈ reported

lemma IsMaximalPair.hasApart (h : texts.IsMaximalPair run x y) (hrun : run ≠ []) : texts.HasApart run :=
  ⟨x, y, h.ne hrun, h.left, h.right, h.apart⟩

lemma isOverlapping_iff (hrun : run ≠ []) : texts.IsOverlapping run ↔ ¬ texts.HasApart run :=
  and_iff_right_of_imp fun h ⟨_, _, hxy⟩ => h (hxy.hasApart hrun)

lemma isMaximalPair_of_isExtended (hs : texts x.1 = some s) (ht : texts y.1 = some t) (hx : texts.Occurs run x)
    (hy : texts.Occurs run y) (hapart : Apart run.length x y) (h : IsExtended s t x.2 y.2 run.length) :
    texts.IsMaximalPair run x y := by
  obtain ⟨a, i⟩ := x
  obtain ⟨b, j⟩ := y
  dsimp only at hs ht h
  refine ⟨hx, hy, hapart, ?_, ?_⟩
  · rintro ⟨key, hkx, hky⟩
    cases i with
    | zero => exact absurd hkx (by simp [before?])
    | succ i =>
      cases j with
      | zero => exact absurd hky (by simp [before?])
      | succ j =>
        simp only [before?, hs, ht, Option.bind_some] at hkx hky
        exact h.before i.succ_pos j.succ_pos (hkx.trans hky.symm)
  · rintro ⟨key, hkx, hky⟩
    simp only [behind?, hs, ht, Option.bind_some] at hkx hky
    have hi := (List.getElem?_eq_some_iff.mp hkx).1
    have hj := (List.getElem?_eq_some_iff.mp hky).1
    exact h.behind hi hj (hkx.trans hky.symm)

lemma runIn_eq (hne : dup.occurrences ≠ []) (hl : dup.tokens = run.length)
    (h : ∀ x ∈ dup.occurrences, texts.Occurs run x.startingPoint) : dup.runIn texts = run := by
  obtain ⟨x, rest, he⟩ := List.exists_cons_of_ne_nil hne
  obtain ⟨keys, hk, hp⟩ := exists_of_occurs (h x (he ▸ List.mem_cons_self))
  rw [runIn, he, List.head?_cons, Option.elim_some, hk, Option.getD_some, hl]
  exact (List.prefix_iff_eq_take.mp hp).symm

end Texts

lemma Duplication.maximalPairs_ne_nil {c : Corpus} {duplications : List Duplication}
    (h : outcomeOf c r = .ok (.reported duplications)) : maximalPairs c.keys r.positions r.length ≠ [] := by
  intro hnil
  obtain ⟨hoverlapping, hcontained⟩ := outcome_eq_iff h
  by_cases hd : hasDisjoint r.length r.positions = true
  · exact absurd (hcontained.mpr ⟨hnil, hd⟩) (by simp)
  · exact absurd (hoverlapping.mpr ⟨hnil, hd⟩) (by simp)

namespace Detector

lemma exists_duplication_of_apart (h : d.detect files o = .ok result)
    (hf : LiesIn (gathered d.registry o files) length p k i f)
    (hg : LiesIn (gathered d.registry o files) length q l j g) (hl : o.minimumTokens ≤ length)
    (hapart : Texts.Apart length (f.inputIndex, i) (g.inputIndex, j))
    (he : IsExtended (f.tokens.map (·.key)) (g.tokens.map (·.key)) i j length) :
    ∃ dup ∈ result.duplications, dup.tokens = length ∧
      (∃ x ∈ dup.occurrences, x.file = f.inputIndex ∧ x.startToken = i) ∧
      ∃ x ∈ dup.occurrences, x.file = g.inputIndex ∧ x.startToken = j := by
  have hkl : k ≠ l ∨ i + length ≤ j ∨ j + length ≤ i := by
    by_cases hkl : k = l
    · subst hkl
      obtain rfl : f = g := Option.some.inj (hf.file.symm.trans hg.file)
      exact .inr (hapart rfl)
    · exact .inl hkl
  rcases hf.apart hg hkl with hle | hle
  · exact exists_duplication_of_isExtended h hf hg hl hle he
  · obtain ⟨dup, hd, htokens, hx, hy⟩ := exists_duplication_of_isExtended h hg hf hl hle he.symm
    exact ⟨dup, hd, htokens, hy, hx⟩

lemma exists_covers (h : d.detect files o = .ok result)
    (hn : texts.Numbers id (gathered d.registry o files)) (hlong : o.minimumTokens ≤ run.length)
    (hx : texts.Occurs run x) (hy : texts.Occurs run y) (hapart : Texts.Apart run.length x y)
    (hno : ¬ texts.IsMaximalPair run x y) :
    (∃ dup ∈ result.duplications, dup.Covers run.length x y) ∨ texts.OverlapExtended x y := by
  have hrun : run ≠ [] := List.ne_nil_of_length_pos ((detect_eq_ok h).1.trans_le hlong)
  obtain ⟨p, k, i, f, hf, rfl, hpf⟩ := hn.exists_liesIn hrun hx
  obtain ⟨q, l, j, g, hg, rfl, hpg⟩ := hn.exists_liesIn hrun hy
  rw [hf.placeAt_eq, hg.placeAt_eq] at *
  have hs := hn.text hf.file
  have ht := hn.text hg.file
  obtain ⟨hi, hagreef⟩ := (Texts.prefix_drop_iff hrun).mp hpf
  obtain ⟨hj, hagreeg⟩ := (Texts.prefix_drop_iff hrun).mp hpg
  have hagree : ∀ n < run.length, (f.tokens.map (·.key))[i + n]? = (g.tokens.map (·.key))[j + n]? :=
    fun n hlt => (hagreef n hlt).trans (hagreeg n hlt).symm
  have hstrict := lt_extension hi hj hagree fun he =>
    hno (Texts.isMaximalPair_of_isExtended hs ht hx hy hapart he)
  obtain ⟨offset, hi', hj', hle⟩ := exists_offset hi hj hagree
  have hex := isExtended_extension (s := f.tokens.map (·.key)) (t := g.tokens.map (·.key)) (i := i) (j := j)
    (by omega) (by omega)
  generalize hext : extension (f.tokens.map (·.key)) (g.tokens.map (·.key)) i j = e at *
  obtain ⟨i', j', length⟩ := e
  by_cases hsides : Texts.Apart length (f.inputIndex, i') (g.inputIndex, j')
  · have hlf : LiesIn (gathered d.registry o files) length _ k i' f := ⟨hf.file, rfl, by simpa using hex.room⟩
    have hlg : LiesIn (gathered d.registry o files) length _ l j' g := ⟨hg.file, rfl, by simpa using hex.room'⟩
    obtain ⟨dup, hd, rfl, ⟨u, hu, hfile, htoken⟩, v, hv, hfile', htoken'⟩ :=
      exists_duplication_of_apart h hlf hlg (hlong.trans hstrict.le) hsides hex
    refine .inl ⟨dup, hd, hstrict, offset, hle, u, hu, v, hv, ?_, ?_⟩
    · rw [hfile, htoken, hi', id]
    · rw [hfile', htoken', hj', id]
  · exact .inr ⟨_, _, i', j', length, hs, ht, hext, hsides⟩

lemma runIn_of_ofChain {chain : List ℕ} (hof : OfChain given r.length chain dup)
    (ht : texts.IsRepeatOf id given run r) (hc : ∀ p ∈ chain, p ∈ r.positions) (hne : chain ≠ []) :
    dup.runIn texts = run := by
  refine Texts.runIn_eq ?_ (hof.tokens.trans ht.length) fun x hx => ?_
  · rw [← List.length_pos_iff, hof.length_eq, List.length_pos_iff]
    exact hne
  · obtain ⟨p, hp, k, i, f, hlies, htells⟩ := hof.exists_position hx
    have hocc := ((ht.mem_iff p).mp (hc p hp)).2
    rw [hlies.placeAt_eq] at hocc
    rw [Occurrence.startingPoint, htells.file, htells.startToken]
    exact hocc

lemma justifies_of_outcomeOf (h : d.detect files o = .ok result)
    (hn : texts.Numbers id (gathered d.registry o files)) (hl : o.minimumTokens ≤ r.length)
    (hmax : r.IsMaximal (corpusOf d files o).keys) (ho : outcomeOf (corpusOf d files o) r = .ok outcome)
    (hreported : ∀ dup ∈ outcome.duplications, dup ∈ result.duplications) :
    texts.Justifies result.duplications (Texts.runOf (gathered d.registry o files) r) outcome := by
  have hpos : 0 < r.length := (detect_eq_ok h).1.trans_le hl
  have ht := hn.isRepeatOf_runOf hmax hpos
  have hrun := Texts.runOf_ne_nil hn hmax hpos
  obtain ⟨hoverlapping, hcontained⟩ := hn.outcome_iff hmax hpos ho
  refine ⟨hoverlapping.trans (Texts.isOverlapping_iff hrun), fun he => ?_, ?_, hreported⟩
  · obtain ⟨hno, hapart⟩ := hcontained.mp he
    refine ⟨hapart, fun x y _ hx hy hxy => ?_⟩
    exact exists_covers h hn (ht.length ▸ hl) hx hy hxy fun hpair => hno ⟨x, y, hpair⟩
  · rintro duplications rfl
    have hchains := outcomeOf_eq_ok ho
    refine ⟨?_, fun dup hd => ?_⟩
    · obtain ⟨pair, hp⟩ := List.exists_mem_of_ne_nil _ (maximalPairs_ne_nil ho)
      obtain ⟨chain, hc, -⟩ := exists_mem_coverPairs_holds
        (fun pair hp => holds_iff.mpr (ends_mem_chainThrough hp hmax.sorted)) hp
      obtain ⟨dup, hd, -⟩ := exists_of_mem_left hchains hc
      exact List.ne_nil_of_mem hd
    · obtain ⟨chain, hc, hof⟩ := exists_of_mem_right hchains hd
      obtain ⟨pair, hp, rfl⟩ := exists_pair_of_mem_coverPairs hc
      refine runIn_of_ofChain hof ht (fun p => mem_of_mem_chainThrough) ?_
      exact List.ne_nil_of_mem (ends_mem_chainThrough hp hmax.sorted).1

end Detector

namespace Texts

variable {runs : List (List Key)} {found : List Outcome}

lemma Tells.runIn_eq (h : texts.Tells run outcome) (hd : dup ∈ outcome.duplications) : dup.runIn texts = run := by
  cases outcome with
  | reported duplications => exact (h duplications rfl).2 dup hd
  | overlapping => exact absurd hd List.not_mem_nil
  | contained => exact absurd hd List.not_mem_nil

lemma not_mem_runsIn (h : List.Forall₂ texts.Tells runs found) (hnot : run ∉ runs) :
    run ∉ ((found.flatMap (·.duplications)).map (·.runIn texts)).toFinset := by
  intro hm
  obtain ⟨dup, hd, rfl⟩ := List.mem_map.mp (List.mem_toFinset.mp hm)
  obtain ⟨outcome, ho, hd⟩ := List.mem_flatMap.mp hd
  obtain ⟨run, hr, htells⟩ := exists_of_mem_right h ho
  exact hnot (htells.runIn_eq hd ▸ hr)

lemma length_eq_counts (h : List.Forall₂ texts.Tells runs found) (hn : runs.Nodup) :
    runs.length = found.count .overlapping + found.count .contained +
      ((found.flatMap (·.duplications)).map (·.runIn texts)).toFinset.card := by
  induction h with
  | nil => rfl
  | @cons run outcome runs found hrun hruns ih =>
    obtain ⟨hnot, hn⟩ := List.nodup_cons.mp hn
    have hrest := not_mem_runsIn hruns hnot
    rw [List.length_cons, List.flatMap_cons, List.map_append, List.toFinset_append, ih hn]
    cases outcome with
    | overlapping =>
      rw [List.count_cons_self, List.count_cons_of_ne (by simp), Outcome.duplications, List.map_nil, List.toFinset_nil,
        Finset.empty_union]
      · omega
      · simp
    | contained =>
      rw [List.count_cons_self, List.count_cons_of_ne (by simp), Outcome.duplications, List.map_nil, List.toFinset_nil,
        Finset.empty_union]
      · omega
      · simp
    | reported duplications =>
      obtain ⟨hne, hall⟩ := hrun duplications rfl
      have hfirst : (duplications.map (·.runIn texts)).toFinset = {run} := by
        rw [List.eq_replicate_of_mem (List.forall_mem_map.mpr hall), List.length_map]
        exact List.toFinset_replicate_of_ne_zero (List.length_pos_iff.mpr hne).ne'
      rw [Outcome.duplications, hfirst, Finset.singleton_union, Finset.card_insert_of_notMem hrest,
        List.count_cons_of_ne (by simp), List.count_cons_of_ne (by simp)]
      omega

end Texts

namespace Detector

structure Accounts (texts : Texts) (minimum : ℕ) (result : Detection) (runs : List (List Key)) (found : List Outcome) :
    Prop where
  nodup : runs.Nodup
  mem_iff : ∀ run, run ∈ runs ↔ minimum ≤ run.length ∧ texts.IsMaximal run
  justified : List.Forall₂ (texts.Justifies result.duplications) runs found
  repeats : result.statistics.repeats = runs.length
  overlapping : result.statistics.overlapping = found.count .overlapping
  contained : result.statistics.contained = found.count .contained

/-- Each maximal repeat that is long enough is counted once: as one whose occurrences overlap, as one that longer
duplications tell, or among the runs that are reported. -/
theorem detect_accounted (h : d.detect files o = .ok result) :
    result.statistics.duplications = result.duplications.length ∧
    result.statistics.repeats = result.statistics.overlapping + result.statistics.contained +
      (result.duplications.map (·.runIn (keysOf? d.registry o files))).toFinset.card ∧
    ∃ runs found, outcomes (corpusOf d files o) o.minimumTokens = .ok found ∧
      Accounts (keysOf? d.registry o files) o.minimumTokens result runs found := by
  have hn : (keysOf? d.registry o files).Numbers id (gathered d.registry o files) :=
    numbers_gathered (Equiv.refl ℕ) fun _ => rfl
  have hpos := (detect_eq_ok h).1
  obtain ⟨hv, corpus, warnings, found, hb, hf, he⟩ := detect_eq_ok_iff.mp h
  obtain rfl : corpus = corpusOf d files o := build_eq_ok hb
  have hreport : result.duplications = report found := by rw [he]
  have hjustified : List.Forall₂ ((keysOf? d.registry o files).Justifies result.duplications)
      ((Repeat.all (corpusOf d files o).keys (.build (corpusOf d files o).keys) o.minimumTokens).map
        (Texts.runOf (gathered d.registry o files))) found := by
    refine List.forall₂_map_left_iff.mpr (forall₂_imp_of_mem (outcomes_eq_ok hf) fun r hr outcome hout ho => ?_)
    obtain ⟨hl, hmax⟩ := (Repeat.mem_all (SuffixIndex.build_indexes _)).mp hr
    refine justifies_of_outcomeOf h hn (by omega) hmax ho fun dup hd => ?_
    rw [hreport]
    exact mem_report.mpr ⟨outcome, hout, hd⟩
  have hnodup : ((Repeat.all (ofFiles (gathered d.registry o files)).keys
      (.build (ofFiles (gathered d.registry o files)).keys) o.minimumTokens).map
        (Texts.runOf (gathered d.registry o files))).Nodup := Texts.nodup_map_runOf hn
  have hcounts := Texts.length_eq_counts (hjustified.imp fun run outcome hj => hj.told) hnodup
  have hruns : (result.duplications.map (·.runIn (keysOf? d.registry o files))).toFinset =
      ((found.flatMap (·.duplications)).map (·.runIn (keysOf? d.registry o files))).toFinset := by
    rw [hreport]
    exact List.toFinset_eq_of_perm _ _ ((List.mergeSort_perm _ _).map _)
  refine ⟨by rw [he], ?_, _, found, hf, hnodup, fun run => ?_, hjustified, ?_, by rw [he], by rw [he]⟩
  · rw [hruns, he]
    rw [hjustified.length_eq] at hcounts
    exact hcounts
  · rw [Texts.mem_map_runOf_iff hn, Nat.max_eq_left hpos]
  · exact (congrArg (·.statistics.repeats) he).trans hjustified.length_eq.symm

theorem detect_accounted_words : ∃ result,
    detect { registry := .register .empty (.words "words" []) [] } [⟨"a", "a b b b a b b a x x x", none⟩]
      { minimumTokens := 2, language := "words" } = .ok result ∧
    result.statistics.overlapping = 1 ∧ result.statistics.contained = 1 ∧
    result.statistics.repeats = result.statistics.overlapping + result.statistics.contained +
      (result.duplications.map (·.runIn (keysOf? (.register .empty (.words "words" []) [])
        { minimumTokens := 2, language := "words" } [⟨"a", "a b b b a b b a x x x", none⟩]))).toFinset.card :=
  ⟨_, by cbv, rfl, rfl,
    (detect_accounted (d := { registry := .register .empty (.words "words" []) [] }) (by cbv)).2.1⟩

end Detector

end CodeClones
