import CodeClones.Proofs.Detection.Reported
import CodeClones.Proofs.Duplication.Placement
import CodeClones.Proofs.Lines

/-! What the repeats of a corpus are turned into without a fault, whatever tokens it has. -/

namespace CodeClones

open Corpus Success

variable {m : Type → Type} [Monad m] [LawfulMonad m] [Access m] {given : List TokenizedFile} {f : TokenizedFile}
  {r : Repeat} {length k i p : ℕ} {chain : List ℕ}

namespace Duplication

lemma occurrenceAtM_same (h : LiesIn given length p k i f) (hpos : 0 < length) :
    Same (occurrenceAtM (ofFiles given) length p : ExceptT MisplacedRun m _)
      (occurrenceAt (ofFiles given) length p) := by
  have hroom := h.room
  have hk := (List.getElem?_eq_some_iff.mp h.file).1
  have hle := le_startOf hk.le
  obtain ⟨t, ht⟩ : ∃ t, f.tokens[i]? = some t := ⟨_, List.getElem?_eq_getElem (by omega)⟩
  obtain ⟨u, hu⟩ : ∃ u, f.tokens[i + length - 1]? = some u := ⟨_, List.getElem?_eq_getElem (by omega)⟩
  have hfirst := getElem?_tokens h.file (by omega : i < f.tokens.length)
  have hlast := getElem?_tokens h.file (by omega : i + length - 1 < f.tokens.length)
  rw [show startOf given k + (i + length - 1) - k = startOf given k + i - k + length - 1 by omega] at hlast
  have hfile := h.fileOfRun_eq hpos
  have hplace : (placed given k f).start ≤ startOf given k + i := Nat.le_add_right _ _
  obtain rfl := h.position
  rw [occurrenceAt_def, occurrenceAtM]
  have hsame : Same (monadLift (fileOfRun (ofFiles given) length (startOf given k + i)) : ExceptT MisplacedRun m _)
      (fileOfRun (ofFiles given) length (startOf given k + i)) := hfile ▸ .pure _
  apply hsame.bind
  rintro ⟨k', f'⟩ hf'
  obtain ⟨rfl, rfl⟩ := Prod.mk.inj (Except.ok.inj (hfile.symm.trans hf'))
  have hsize : k < (ofFiles given).files.size := by rwa [size_files]
  have hsub : k ≤ startOf given k + i := by omega
  have hone : 1 ≤ startOf given k + i - k + length := by omega
  simp only [require_eq hsize, minus_eq hsub, minus_eq hone, minus_eq hplace, pure_bind, hfirst, hlast, ht, hu]
  exact .pure _

lemma fragmentOfM_eq (c : Corpus) (x : Occurrence) : (fragmentOfM c x : m _) = pure (fragmentOf c x) := by
  rw [fragmentOfM, fragmentOf_def]
  cases c.files.find? (·.inputIndex = x.file) with
  | none => rfl
  | some f =>
    simp only [Text.lineRangeM_eq, pure_bind]

lemma ofChainM_same (hash : UInt64) (hc : chain ≠ []) (h : ∀ p ∈ chain, ∃ k i f, LiesIn given length p k i f)
    (hpos : 0 < length) : Same (ofChainM (ofFiles given) length hash chain : ExceptT MisplacedRun m _)
      (ofChain (ofFiles given) length hash chain) := by
  rw [ofChain_def, ofChainM]
  have hfound : Same (chain.mapM (occurrenceAtM (ofFiles given) length) : ExceptT MisplacedRun m _)
      (chain.mapM (occurrenceAt (ofFiles given) length)) := by
    apply Same.mapM
    intro p hp
    obtain ⟨k, i, f, hlies⟩ := h p hp
    exact occurrenceAtM_same hlies hpos
  apply hfound.bind
  intro found hf
  have hsize : 0 < (found.mergeSort fun a b => (a.compare b).isLE).length := by
    rw [List.length_mergeSort, ← (mapM_eq_ok.mp hf).length_eq]
    exact List.length_pos_of_ne_nil hc
  have hfragment : ∀ x : Option Occurrence, (x.elim (pure "") (fragmentOfM (ofFiles given)) : m _) =
      pure (x.elim "" (fragmentOf (ofFiles given))) := by
    rintro (_ | x)
    · rfl
    · exact fragmentOfM_eq _ _
  simp only [require_eq hsize, pure_bind, hfragment, lift_pure]
  exact .pure _

lemma hasDisjointM_eq {positions : List ℕ} (hn : positions ≠ []) (hs : positions.Pairwise (· < ·)) :
    (hasDisjointM length positions : m _) = pure (hasDisjoint length positions) := by
  have hle : positions.head?.getD 0 ≤ positions.getLast?.getD 0 := by
    obtain ⟨p, rest, rfl⟩ := List.exists_cons_of_ne_nil hn
    rw [List.getLast?_eq_some_getLast hn, List.head?_cons, Option.getD_some, Option.getD_some]
    rcases List.mem_cons.mp (List.getLast_mem hn) with he | hm
    · exact he.ge
    · exact ((List.pairwise_cons.mp hs).1 _ hm).le
  rw [hasDisjointM, minus_eq hle, pure_bind]
  rfl

lemma outcomeOfM_same (h : r.IsMaximal (ofFiles given).keys) (hpos : 0 < r.length) :
    Same (outcomeOfM groupByBucketM (ofFiles given) r : ExceptT MisplacedRun m _) (outcomeOf (ofFiles given) r) := by
  have hlies := fun p => exists_liesIn (p := p) h hpos
  have hsize : ∀ p ∈ r.positions, p ≤ (ofFiles given).keys.size := by
    intro p hp
    obtain ⟨k, i, f, hf⟩ := hlies p hp
    have := hf.lt_size
    omega
  have hgroups : (groupByBucketM (ofFiles given).keys r : m _) = pure (buckets (ofFiles given).keys r.positions) :=
    bucketsM_eq hsize
  have hchecks : Same (r.positions.forM fun p => discard (monadLift (fileOfRun (ofFiles given) r.length p)) :
      ExceptT MisplacedRun m _) (r.positions.forM fun p => discard (fileOfRun (ofFiles given) r.length p)) := by
    apply Same.forM
    intro p hp
    obtain ⟨k, i, f, hf⟩ := hlies p hp
    rw [hf.fileOfRun_eq hpos]
    refine ⟨(), ?_, rfl⟩
    change discard (pure _ : ExceptT MisplacedRun m _) = _
    rw [discard, map_const, Function.comp_apply, map_pure]
  rw [outcomeOf_def, outcomeOfM]
  apply hchecks.bind
  intro _ _
  simp only [hgroups, lift_pure, pure_bind]
  have hn : r.positions ≠ [] := List.ne_nil_of_length_pos (Nat.zero_lt_of_lt h.several)
  rw [← maximalPairs]
  generalize hpairs : maximalPairs (ofFiles given).keys r.positions r.length = pairs
  cases pairs with
  | nil =>
    simp only [hasDisjointM_eq hn h.sorted, lift_pure, pure_bind]
    exact .pure _
  | cons first others =>
    have hmem : ∀ pair ∈ first :: others, pair.1 ∈ r.positions := fun pair hp =>
      (mem_maximalPairs.mp (hpairs ▸ hp)).1
    obtain ⟨k, i, f, hf⟩ := hlies first.1 (hmem first List.mem_cons_self)
    simp only [slice_eq (Nat.le_add_right _ _) hf.lt_size.le, pure_bind]
    refine Same.bind (Same.mapM fun chain hc => ?_) fun duplications _ => .pure _
    obtain ⟨pair, hp, rfl⟩ := exists_pair_of_mem_coverPairs hc
    have hheld := ends_mem_chainThrough (hpairs ▸ hp) h.sorted
    exact ofChainM_same _ (List.ne_nil_of_mem hheld.1) (fun p hp => hlies p (mem_of_mem_chainThrough hp)) hpos

end Duplication

namespace Detector

open Duplication

lemma outcomesM_same (given : List TokenizedFile) (minimum : ℕ) :
    Same (outcomesM groupByBucketM (ofFiles given) minimum : ExceptT MisplacedRun m _)
      (outcomes (ofFiles given) minimum) := by
  have hi := SuffixIndex.build_indexes (ofFiles given).keys
  rw [outcomes_def, outcomesM, SuffixIndex.buildM_eq, lift_pure, pure_bind, Repeat.allM_eq hi, lift_pure,
    pure_bind]
  apply Same.mapM
  intro r hr
  obtain ⟨hl, hmax⟩ := (Repeat.mem_all hi).mp hr
  exact outcomeOfM_same hmax (by omega)

lemma exists_outcomes (given : List TokenizedFile) (minimum : ℕ) :
    ∃ found, outcomes (ofFiles given) minimum = .ok found := by
  obtain ⟨found, -, h⟩ : Same (_ : ExceptT MisplacedRun Id _) _ := outcomesM_same given minimum
  exact ⟨found, h⟩

end Detector

end CodeClones
