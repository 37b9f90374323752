import Mathlib.Data.Multiset.Basic
import CodeClones.Proofs.Corpus.Alike
import CodeClones.Proofs.Detection.Reported

/-! In files that are alike, the same duplications are found. -/

namespace CodeClones

open Corpus Duplication Success

def Duplication.outline (dup : Duplication) : ℕ × UInt64 × List (ℕ × ℕ) :=
  (dup.tokens, dup.hash, dup.occurrences.map (·.startingPoint))

def Duplication.summary (dup : Duplication) : ℕ × UInt64 × Multiset (ℕ × ℕ) :=
  (dup.tokens, dup.hash, dup.occurrences.map (·.startingPoint))

variable {given given' : List TokenizedFile} {x y x' y' : Occurrence} {dup dup' : Duplication} {length : ℕ}

namespace Corpus

def SameRun (given given' : List TokenizedFile) (x y : Occurrence) : Prop :=
  ∃ (k i length : ℕ) (f g : TokenizedFile), given[k]? = some f ∧ given'[k]? = some g ∧ Tells f length i x ∧
    Tells g length i y

variable (h : List.Forall₂ TokenizedFile.Alike given given')

include h

lemma SameRun.startingPoint_eq (hx : SameRun given given' x y) : x.startingPoint = y.startingPoint := by
  obtain ⟨k, i, length, f, g, hf, hg, hxf, hyg⟩ := hx
  obtain ⟨g', hg', hfg⟩ := exists_getElem?_of_forall₂ h hf
  rw [hg, Option.some.injEq] at hg'
  subst hg'
  rw [Occurrence.startingPoint, Occurrence.startingPoint, hxf.file, hyg.file, hfg.inputIndex, hxf.startToken,
    hyg.startToken]

lemma exists_sameRun {p : ℕ} (hx : occurrenceAt (ofFiles given) length p = .ok x)
    (hy : occurrenceAt (ofFiles given') length p = .ok y) : SameRun given given' x y := by
  obtain ⟨k, i, f, hf, hxf⟩ := occurrenceAt_eq_ok hx
  obtain ⟨l, j, g, hg, hyg⟩ := occurrenceAt_eq_ok hy
  obtain ⟨g', hg'⟩ := hf.of_alike h
  obtain ⟨rfl, rfl, rfl⟩ := hg.unique hg'
  exact ⟨l, j, length, f, g, hf.file, hg.file, hxf, hyg⟩

structure SameChain (given given' : List TokenizedFile) (dup dup' : Duplication) : Prop where
  tokens : dup.tokens = dup'.tokens
  hash : dup.hash = dup'.hash
  occurrences : ∃ found found', List.Forall₂ (SameRun given given') found found' ∧
    dup.occurrences = found.mergeSort (fun a b => (a.compare b).isLE) ∧
    dup'.occurrences = found'.mergeSort fun a b => (a.compare b).isLE

lemma exists_sameChain {hash : UInt64} {chain : List ℕ} (hd : ofChain (ofFiles given) length hash chain = .ok dup)
    (hd' : ofChain (ofFiles given') length hash chain = .ok dup') : SameChain given given' dup dup' := by
  rw [ofChain_def] at hd hd'
  obtain ⟨found, hf, hd⟩ := bind_eq_ok.mp hd
  obtain ⟨found', hf', hd'⟩ := bind_eq_ok.mp hd'
  obtain rfl := Except.ok.inj hd
  obtain rfl := Except.ok.inj hd'
  exact ⟨rfl, rfl, found, found', forall₂_of_mapM hf hf' fun p _ x y => exists_sameRun h, rfl, rfl⟩

lemma SameChain.summary_eq (hd : SameChain given given' dup dup') : dup.summary = dup'.summary := by
  obtain ⟨found, found', hf, ho, ho'⟩ := hd.occurrences
  have hpoints : found.map (·.startingPoint) = found'.map (·.startingPoint) :=
    map_eq_of_forall₂ hf fun x y hx => hx.startingPoint_eq h
  rw [Duplication.summary, Duplication.summary, hd.tokens, hd.hash, ho, ho']
  refine congrArg (fun points => (dup'.tokens, dup'.hash, points)) (Multiset.coe_eq_coe.mpr ?_)
  refine ((List.mergeSort_perm _ _).map _).trans ?_
  rw [hpoints]
  exact ((List.mergeSort_perm _ _).map _).symm

lemma exists_sameOutcome {r : Repeat} {outcome outcome' : Outcome} (hr : outcomeOf (ofFiles given) r = .ok outcome)
    (hr' : outcomeOf (ofFiles given') r = .ok outcome') :
    List.Forall₂ (SameChain given given') outcome.duplications outcome'.duplications := by
  rw [outcomeOf_def] at hr hr'
  obtain ⟨⟨⟩, -, hr⟩ := bind_eq_ok.mp hr
  obtain ⟨⟨⟩, -, hr'⟩ := bind_eq_ok.mp hr'
  rw [← keys_congr h] at hr'
  split at hr
  · next hpairs =>
    rw [hpairs] at hr'
    dsimp only at hr'
    split at hr <;> split at hr' <;> obtain rfl := Except.ok.inj hr <;> obtain rfl := Except.ok.inj hr' <;>
      exact .nil
  · next first others hpairs =>
    rw [hpairs] at hr'
    dsimp only at hr'
    obtain ⟨found, hf, hr⟩ := bind_eq_ok.mp hr
    obtain ⟨found', hf', hr'⟩ := bind_eq_ok.mp hr'
    obtain rfl := Except.ok.inj hr
    obtain rfl := Except.ok.inj hr'
    exact forall₂_of_mapM hf hf' fun chain _ dup dup' => exists_sameChain h

lemma forall₂_outcomes {minimum : ℕ} {found found' : List Outcome}
    (hf : Detector.outcomes (ofFiles given) minimum = .ok found)
    (hf' : Detector.outcomes (ofFiles given') minimum = .ok found') :
    List.Forall₂ (SameChain given given') (found.flatMap (·.duplications)) (found'.flatMap (·.duplications)) := by
  rw [Detector.outcomes_def] at hf hf'
  rw [← keys_congr h] at hf'
  exact List.rel_flatMap (forall₂_of_mapM hf hf' fun r _ outcome outcome' => exists_sameOutcome h) fun _ _ h => h

lemma summary_report_perm {found found' : List Outcome}
    (hf : List.Forall₂ (SameChain given given') (found.flatMap (·.duplications)) (found'.flatMap (·.duplications))) :
    ((report found).map (·.summary)).Perm ((report found').map (·.summary)) := by
  refine ((List.mergeSort_perm _ _).map _).trans ?_
  rw [map_eq_of_forall₂ hf fun dup dup' hd => hd.summary_eq h]
  exact ((List.mergeSort_perm _ _).map _).symm

/-! ### The order of a report -/

variable (ho : List.Forall₂ TokenizedFile.SameOrder given given')
  (hp : given.Pairwise fun f g => f.inputIndex < g.inputIndex)

include ho hp

lemma SameRun.compareHeads_eq (hx : SameRun given given' x y) (hx' : SameRun given given' x' y') :
    x.compareHeads x' = y.compareHeads y' := by
  have hfile : x.file = y.file := (Prod.mk.inj (hx.startingPoint_eq h)).1
  have hfile' : x'.file = y'.file := (Prod.mk.inj (hx'.startingPoint_eq h)).1
  rw [Occurrence.compareHeads, Occurrence.compareHeads, hfile, hfile']
  -- Places are compared only if both occurrences are in one file.
  by_cases hne : y.file = y'.file
  · obtain ⟨k, i, length, f, g, hf, hg, hxf, hyg⟩ := hx
    obtain ⟨l, j, length', f', g', hf', hg', hxf', hyg'⟩ := hx'
    have hsame : f.inputIndex = f'.inputIndex := by rw [← hxf.file, ← hxf'.file, hfile, hfile', hne]
    obtain rfl := index_unique hp hf hf' hsame
    rw [hf, Option.some.injEq] at hf'
    rw [hg, Option.some.injEq] at hg'
    subst hf' hg'
    obtain ⟨g', hg', horder⟩ := exists_getElem?_of_forall₂ ho hf
    rw [hg, Option.some.injEq] at hg'
    subst hg'
    exact congrArg _ (horder i j _ _ _ _ hxf.first hxf'.first hyg.first hyg'.first)
  · have hcompare : Ord.compare y.file y'.file ≠ .eq := fun he => hne (Nat.compare_eq_eq.mp he)
    cases hc : Ord.compare y.file y'.file with
    | lt => rfl
    | eq => exact absurd hc hcompare
    | gt => rfl

lemma SameRun.compare_eq (hx : SameRun given given' x y) (hx' : SameRun given given' x' y') :
    x.compare x' = y.compare y' := by
  have hthen : ∀ a b : Occurrence, a.compare b = (a.compareHeads b).then (Ord.compare a.startToken b.startToken) :=
    fun a b => by simp [Occurrence.compare, Occurrence.compareHeads, Ordering.then_assoc]
  rw [hthen, hthen, hx.compareHeads_eq h ho hp hx', (Prod.mk.inj (hx.startingPoint_eq h)).2,
    (Prod.mk.inj (hx'.startingPoint_eq h)).2]

lemma SameChain.occurrences_eq (hd : SameChain given given' dup dup') :
    List.Forall₂ (SameRun given given') dup.occurrences dup'.occurrences := by
  obtain ⟨found, found', hf, he, he'⟩ := hd.occurrences
  rw [he, he']
  exact forall₂_mergeSort hf fun x x' y y' hx hx' => by rw [hx.compare_eq h ho hp hx']

lemma SameChain.startingPoints_eq (hd : SameChain given given' dup dup') :
    dup.occurrences.map (·.startingPoint) = dup'.occurrences.map (·.startingPoint) :=
  map_eq_of_forall₂ (hd.occurrences_eq h ho hp) fun _ _ hx => hx.startingPoint_eq h

lemma SameChain.outline_eq (hd : SameChain given given' dup dup') : dup.outline = dup'.outline := by
  rw [Duplication.outline, Duplication.outline, hd.tokens, hd.hash, hd.startingPoints_eq h ho hp]

lemma SameChain.compare_eq {dup₁ dup₂ dup₁' dup₂' : Duplication} (hd : SameChain given given' dup₁ dup₁')
    (hd' : SameChain given given' dup₂ dup₂') : dup₁.compare dup₂ = dup₁'.compare dup₂' := by
  have hheads : compareHeads dup₁.occurrences dup₂.occurrences = compareHeads dup₁'.occurrences dup₂'.occurrences := by
    have hx := hd.occurrences_eq h ho hp
    have hx' := hd'.occurrences_eq h ho hp
    revert hx hx'
    generalize dup₁.occurrences = s, dup₁'.occurrences = s', dup₂.occurrences = t, dup₂'.occurrences = t'
    intro hx hx'
    cases hx with
    | nil =>
      cases hx' with
      | nil => rfl
      | cons hx' _ => rfl
    | cons hx _ =>
      cases hx' with
      | nil => rfl
      | cons hx' _ => exact hx.compareHeads_eq h ho hp hx'
  rw [Duplication.compare, Duplication.compare, hheads, hd.tokens, hd'.tokens, hd.hash, hd'.hash,
    hd.startingPoints_eq h ho hp, hd'.startingPoints_eq h ho hp]

lemma outline_report_eq {found found' : List Outcome}
    (hf : List.Forall₂ (SameChain given given') (found.flatMap (·.duplications)) (found'.flatMap (·.duplications))) :
    (report found).map (·.outline) = (report found').map (·.outline) :=
  map_eq_of_forall₂ (forall₂_mergeSort hf fun _ _ _ _ hd hd' => by rw [hd.compare_eq h ho hp hd'])
    fun dup dup' hd => hd.outline_eq h ho hp

end Corpus

end CodeClones
