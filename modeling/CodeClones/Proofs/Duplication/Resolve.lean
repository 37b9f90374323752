import CodeClones.Duplication.Resolve
import CodeClones.Proofs.Access
import CodeClones.Proofs.Corpus.Layout
import CodeClones.Proofs.Success

/-! What becomes of a repeat if every run of it is where runs can be. -/

namespace CodeClones.Duplication

open Corpus Success

variable {files : List TokenizedFile} {f : TokenizedFile} {k i p length : ℕ} {x : Occurrence} {r : Repeat}
  {chain : List ℕ} {hash : UInt64} {dup : Duplication} {outcome : Outcome}

lemma occurrenceAt_def (c : Corpus) (length p : ℕ) : occurrenceAt c length p = (do
    let (file, f) ← fileOfRun c length p
    match c.tokens[p - file]?, c.tokens[p - file + length - 1]? with
    | some first, some last => return ⟨f.inputIndex, f.path, first.first, last.last, p - f.start⟩
    | _, _ => .error (.withoutToken p)) := by
  simp only [occurrenceAt, occurrenceAtM, plain_bind, plain_require, plain_minus]
  apply bind_congr
  rintro ⟨file, f⟩
  simp only [Except.bind, bind]
  cases c.tokens[p - file]? with
  | none => rfl
  | some first =>
    cases c.tokens[p - file + length - 1]? with
    | none => rfl
    | some last => exact (plain_bind _ _).trans (by rw [plain_minus]; rfl)

lemma fragmentOf_def (c : Corpus) (x : Occurrence) : fragmentOf c x =
    match c.files.find? (·.inputIndex = x.file) with
    | some f => String.ofList (Text.lineRange f.source.toList x.first.line x.last.line)
    | none => "" := by
  rw [fragmentOf, fragmentOfM]
  cases c.files.find? (·.inputIndex = x.file) <;> rfl

lemma ofChain_def (c : Corpus) (length : ℕ) (hash : UInt64) (chain : List ℕ) : ofChain c length hash chain = (do
    let occurrences := (← chain.mapM (occurrenceAt c length)).mergeSort fun a b => (a.compare b).isLE
    return {
      tokens := length
      lines := occurrences.head?.elim 0 (·.lineCount)
      hash, occurrences
      fragment := occurrences.head?.elim "" (fragmentOf c) }) := by
  simp only [ofChain, ofChainM, plain_bind, plain_require, plain_mapM, plain_lift]
  apply bind_congr
  intro found
  cases (found.mergeSort fun a b => (a.compare b).isLE).head? <;> rfl

lemma outcomeOf_def (c : Corpus) (r : Repeat) : outcomeOf c r = (do
    r.positions.forM fun p => discard (fileOfRun c r.length p)
    match maximalPairs c.keys r.positions r.length with
    | [] => return if hasDisjoint r.length r.positions then .contained else .overlapping
    | first :: others =>
        let hash := Hash.ofKeys (c.keys.extract first.1 (first.1 + r.length)).toList
        let chains := coverPairs r.positions r.length (first :: others)
        return .reported (← chains.mapM (ofChain c r.length hash))) := by
  simp only [outcomeOf, outcomeOfM, plain_bind, plain_forM, plain_discard, plain_lift]
  apply bind_congr
  intro _
  change plain (match maximalPairs c.keys r.positions r.length with | [] => _ | _ :: _ => _) = _
  cases maximalPairs c.keys r.positions r.length with
  | nil => rfl
  | cons first others =>
    simp only [plain_bind, plain_slice, plain_mapM]
    rfl

lemma fileOfRun_eq_ok {cf : CorpusFile} (h : fileOfRun (ofFiles files) length p = .ok (k, cf)) :
    ∃ f i, LiesIn files length p k i f ∧ 0 < length ∧ cf = placed files k f := by
  rw [fileOfRun, getElem?_files] at h
  cases hf : files[(ofFiles files).fileAt p]? with
  | none =>
    rw [hf] at h
    exact absurd h (by simp)
  | some f =>
    rw [hf] at h
    simp only [Option.map_some, placed] at h
    split at h
    · exact absurd h (by simp)
    · next hp =>
      push Not at hp
      obtain ⟨hl, hstart, hstop⟩ := hp
      simp only [Except.ok.injEq, Prod.mk.injEq] at h
      obtain ⟨rfl, rfl⟩ := h
      refine ⟨f, p - startOf files ((ofFiles files).fileAt p), ⟨hf, ?_, ?_⟩, Nat.pos_of_ne_zero hl, rfl⟩
      · omega
      · omega

structure Tells (f : TokenizedFile) (length i : ℕ) (x : Occurrence) : Prop where
  file : x.file = f.inputIndex
  path : x.path = f.path
  startToken : x.startToken = i
  first : f.tokens[i]?.map (·.first) = some x.first
  last : f.tokens[i + length - 1]?.map (·.last) = some x.last

lemma occurrenceAt_eq_ok (h : occurrenceAt (ofFiles files) length p = .ok x) :
    ∃ k i f, LiesIn files length p k i f ∧ Tells f length i x := by
  rw [occurrenceAt_def] at h
  obtain ⟨⟨k, cf⟩, hcf, h⟩ := bind_eq_ok.mp h
  obtain ⟨f, i, hlies, hpos, rfl⟩ := fileOfRun_eq_ok hcf
  have hroom := hlies.room
  have hk := (List.getElem?_eq_some_iff.mp hlies.file).1
  have hle := le_startOf (Nat.le_of_lt hk)
  have hfirst := getElem?_tokens hlies.file (by omega : i < f.tokens.length)
  have hlast := getElem?_tokens hlies.file (by omega : i + length - 1 < f.tokens.length)
  rw [show startOf files k + (i + length - 1) - k = startOf files k + i - k + length - 1 by omega] at hlast
  have hp := hlies.position
  subst hp
  simp only [hfirst, hlast] at h
  refine ⟨k, i, f, hlies, ?_⟩
  split at h
  · next t u ht hu =>
    obtain rfl := Except.ok.inj h
    refine ⟨rfl, rfl, ?_, by rw [ht]; rfl, by rw [hu]; rfl⟩
    simp only [placed, Nat.add_sub_cancel_left]
  · exact absurd h (by simp)

structure OfChain (files : List TokenizedFile) (length : ℕ) (chain : List ℕ) (dup : Duplication) : Prop where
  tokens : dup.tokens = length
  occurrences : ∃ found, List.Forall₂ (fun p x => occurrenceAt (ofFiles files) length p = .ok x) chain found ∧
    dup.occurrences.Perm found

lemma ofChain_eq_ok (h : ofChain (ofFiles files) length hash chain = .ok dup) :
    OfChain files length chain dup := by
  rw [ofChain_def] at h
  obtain ⟨found, hf, h⟩ := bind_eq_ok.mp h
  obtain rfl := Except.ok.inj h
  exact ⟨rfl, found, mapM_eq_ok.mp hf, List.mergeSort_perm _ _⟩

lemma OfChain.length_eq (h : OfChain files length chain dup) : dup.occurrences.length = chain.length := by
  obtain ⟨found, hf, hp⟩ := h.occurrences
  rw [hp.length_eq, hf.length_eq]

lemma OfChain.exists_position (h : OfChain files length chain dup) (hx : x ∈ dup.occurrences) :
    ∃ p ∈ chain, ∃ k i f, LiesIn files length p k i f ∧ Tells f length i x := by
  obtain ⟨found, hf, hp⟩ := h.occurrences
  obtain ⟨p, hm, ho⟩ := exists_of_mem_right hf (hp.mem_iff.mp hx)
  exact ⟨p, hm, occurrenceAt_eq_ok ho⟩

lemma OfChain.exists_occurrence (h : OfChain files length chain dup) (hm : p ∈ chain) :
    ∃ x ∈ dup.occurrences, ∃ k i f, LiesIn files length p k i f ∧ Tells f length i x := by
  obtain ⟨found, hf, hp⟩ := h.occurrences
  obtain ⟨x, hx, ho⟩ := exists_of_mem_left hf hm
  exact ⟨x, hp.mem_iff.mpr hx, occurrenceAt_eq_ok ho⟩

lemma outcomeOf_eq_ok (h : outcomeOf (ofFiles files) r = .ok outcome) : List.Forall₂ (OfChain files r.length)
    (coverPairs r.positions r.length (maximalPairs (ofFiles files).keys r.positions r.length))
    outcome.duplications := by
  rw [outcomeOf_def] at h
  obtain ⟨⟨⟩, -, h⟩ := bind_eq_ok.mp h
  split at h
  · next hpairs =>
    rw [hpairs]
    split at h <;> obtain rfl := Except.ok.inj h <;> exact List.Forall₂.nil
  · next first others hpairs =>
    obtain ⟨duplications, hd, h⟩ := bind_eq_ok.mp h
    obtain rfl := Except.ok.inj h
    rw [hpairs]
    exact (mapM_eq_ok.mp hd).imp fun chain dup => ofChain_eq_ok

lemma exists_ofChain_of_outcomeOf {c : Corpus} (h : outcomeOf c r = .ok outcome) (hd : dup ∈ outcome.duplications) :
    ∃ hash chain, ofChain c r.length hash chain = .ok dup := by
  rw [outcomeOf_def] at h
  obtain ⟨⟨⟩, -, h⟩ := bind_eq_ok.mp h
  split at h
  · split at h <;> obtain rfl := Except.ok.inj h <;> exact absurd hd List.not_mem_nil
  · obtain ⟨duplications, hm, h⟩ := bind_eq_ok.mp h
    obtain rfl := Except.ok.inj h
    obtain ⟨chain, -, hof⟩ := exists_of_mem_right (mapM_eq_ok.mp hm) hd
    exact ⟨_, chain, hof⟩

lemma mem_report {outcomes : List Outcome} :
    dup ∈ report outcomes ↔ ∃ outcome ∈ outcomes, dup ∈ outcome.duplications := by
  rw [report_def, List.mem_mergeSort, List.mem_flatMap]

end CodeClones.Duplication
