import Mathlib.Algebra.Order.BigOperators.Group.List
import Mathlib.Algebra.Order.Group.Nat
import Mathlib.Data.Nat.Find
import Mathlib.Tactic.Push
import CodeClones.Proofs.Corpus.Assembly
import CodeClones.Proofs.Corpus.Gathering
import CodeClones.Proofs.Corpus.Positions

/-! What becomes of a list of files: the error that ends a run, or a corpus and the failures it leaves out. -/

namespace CodeClones.Corpus

open Success

variable {m : Type → Type} [Monad m] [LawfulMonad m] [Access m] {r : Registry} {o : Options}
  {files : List SourceFile} {file : SourceFile} {t : Tokenizer} {ts : List Tokenizer} {e : RunError} {k : ℕ}
  {cancelled : Bool} {built : Corpus × List TokenizationError}

def failure? (o : Options) (file : (SourceFile × Tokenizer) × ℕ) : Option TokenizationError :=
  match (file.1.2.tokenize file.1.1.source file.2 o.normalization).complete with
  | .ok _ => none
  | .error cause => some ⟨file.1.1.path, file.1.2.language, cause⟩

def failures (r : Registry) (o : Options) (files : List SourceFile) : List TokenizationError :=
  files.zipIdx.filterMap fun file =>
    (r.get? (file.1.languageOr o.language)).bind fun t => failure? o ((file.1, t), file.2)

def totalOf (r : Registry) (o : Options) (files : List SourceFile) (n : ℕ) : ℕ :=
  ((gathered r o (files.take n)).map (·.tokens.length)).sum

/-- The error with which a run ends at file number `k`, if it gets there. -/
inductive StopsAt (r : Registry) (o : Options) (files : List SourceFile) (k : ℕ) : RunError → Prop
  | malformed {file : SourceFile} {t : Tokenizer} {cause : TokenizationError} (hf : files[k]? = some file)
      (ht : r.get? (file.languageOr o.language) = some t) (hc : failure? o ((file, t), k) = some cause)
      (hfail : o.failOnTokenizationError = true) : StopsAt r o files k (.tokenization cause)
  | tooManyTokens {file : SourceFile} {t : Tokenizer} {f : TokenizedFile} {limit : ℕ} (hf : files[k]? = some file)
      (ht : r.get? (file.languageOr o.language) = some t) (ha : accepted? o ((file, t), k) = some f)
      (hl : o.maxTokens = some limit) (hlt : limit < totalOf r o files (k + 1)) :
      StopsAt r o files k (.tooManyTokens (totalOf r o files (k + 1)) limit)
  | tooManyPositions {file : SourceFile} {t : Tokenizer} {f : TokenizedFile} (hf : files[k]? = some file)
      (ht : r.get? (file.languageOr o.language) = some t) (ha : accepted? o ((file, t), k) = some f)
      (hl : ∀ limit ∈ o.maxTokens, totalOf r o files (k + 1) ≤ limit)
      (hlt : maxPositions < totalOf r o files (k + 1) + (gathered r o (files.take k)).length + 1) :
      StopsAt r o files k
        (.tooManyTokens (totalOf r o files (k + 1)) (maxPositions - (gathered r o (files.take k)).length - 1))

lemma StopsAt.lt_length (h : StopsAt r o files k e) : k < files.length := by
  cases h with
  | malformed hf => exact (List.getElem?_eq_some_iff.mp hf).1
  | tooManyTokens hf => exact (List.getElem?_eq_some_iff.mp hf).1
  | tooManyPositions hf => exact (List.getElem?_eq_some_iff.mp hf).1

/-- A file needs a position when files without tokens have taken all of them. -/
structure NoRoomAt (r : Registry) (o : Options) (files : List SourceFile) (k : ℕ) : Prop where
  taken : (gathered r o (files.take k)).length = maxPositions
  accepted : (tokensOf? r o files k).isSome
  limit : ∀ limit ∈ o.maxTokens, totalOf r o files (k + 1) ≤ limit

def contents (c : Corpus) : List TokenizedFile :=
  c.files.toList.map fun f =>
    ⟨f.path, f.language, f.inputIndex, f.source, (List.range' f.start f.tokenCount).filterMap c.tokenAt?⟩

/-- What comes of files: an unknown language is found before anything is tokenized, and a request to end before
anything else is found. Then the first file at which the run cannot go on decides. -/
structure Verdict (r : Registry) (o : Options) (cancelled : Bool) (files : List SourceFile)
    (result : Except RunError (Corpus × List TokenizationError)) : Prop where
  unknown : ∀ (k : ℕ) (file : SourceFile), files[k]? = some file → ¬ HasTokenizer r o file →
    (∀ file ∈ files.take k, HasTokenizer r o file) →
    result = .error (.configuration (.unknownFileLanguage (file.languageOr o.language) file.path))
  ended : (∀ file ∈ files, HasTokenizer r o file) → cancelled = true → files ≠ [] → result = .error (.cancelled 0)
  stopped : (∀ file ∈ files, HasTokenizer r o file) → (cancelled = true → files = []) →
    ∀ k e, StopsAt r o files k e → (∀ i < k, ∀ e, ¬ StopsAt r o files i e) → result = .error e
  built : (∀ file ∈ files, HasTokenizer r o file) → (cancelled = true → files = []) →
    (∀ k e, ¬ StopsAt r o files k e) →
    ∃ corpus, result = .ok (corpus, failures r o files) ∧ corpus.contents = gathered r o files

/-! ### The walk through the files -/

def stepM (ts : List Tokenizer) (o : Options) (a : Assembly) (file : SourceFile × ℕ) : ExceptT RunError m Assembly :=
  a.addM ts.toArray o (Id.run (tokenizeM ts.toArray o file), file.2)

lemma accepted?_eq_some {f : TokenizedFile} (h : accepted? o ((file, t), k) = some f) : ∃ tokens,
    (t.tokenize file.source k o.normalization).complete = .ok tokens ∧
      f = ⟨file.path, t.language, k, file.source, tokens⟩ := by
  obtain ⟨tokens, hc, rfl⟩ := Option.map_eq_some_iff.mp h
  refine ⟨tokens, ?_, rfl⟩
  dsimp only at hc
  cases hs : (t.tokenize file.source k o.normalization).complete with
  | error cause =>
    rw [hs] at hc
    exact absurd hc (by simp [Except.toOption])
  | ok tokens' =>
    rw [hs] at hc
    exact congrArg Except.ok (Option.some.inj hc)

lemma failure?_eq_some {failure : TokenizationError} (h : failure? o ((file, t), k) = some failure) : ∃ cause,
    (t.tokenize file.source k o.normalization).complete = .error cause ∧
      failure = ⟨file.path, t.language, cause⟩ := by
  rw [failure?] at h
  split at h
  · exact absurd h (by simp)
  · next cause hc => exact ⟨cause, hc, (Option.some.inj h).symm⟩

lemma gathered_take_succ (hf : files[k]? = some file) (ht : r.get? (file.languageOr o.language) = some t) :
    gathered r o (files.take (k + 1)) =
      gathered r o (files.take k) ++ (accepted? o ((file, t), k)).toList := by
  rw [gathered, filterMap_zipIdx_take_succ _ hf, ht]
  rfl

lemma failures_take_succ (hf : files[k]? = some file) (ht : r.get? (file.languageOr o.language) = some t) :
    failures r o (files.take (k + 1)) =
      failures r o (files.take k) ++ (failure? o ((file, t), k)).toList := by
  rw [failures, filterMap_zipIdx_take_succ _ hf, ht]
  rfl

lemma totalOf_succ (hf : files[k]? = some file) (ht : r.get? (file.languageOr o.language) = some t) :
    totalOf r o files (k + 1) =
      totalOf r o files k + ((accepted? o ((file, t), k)).toList.map (·.tokens.length)).sum := by
  rw [totalOf, gathered_take_succ hf ht, List.map_append, List.sum_append, totalOf]

def assembled (r : Registry) (o : Options) (files : List SourceFile) (n : ℕ) : Assembly :=
  .of (gathered r o (files.take n)) (failures r o (files.take n))

lemma size_tokens_assembled (r : Registry) (o : Options) (files : List SourceFile) (n : ℕ) :
    (assembled r o files n).tokens.size = totalOf r o files n := by
  simp [assembled, Assembly.of, totalOf]

lemma size_files_assembled (r : Registry) (o : Options) (files : List SourceFile) (n : ℕ) :
    (assembled r o files n).files.size = (gathered r o (files.take n)).length :=
  size_files _

lemma totalOf_succ_of_ok {tokens : List Token} (hf : files[k]? = some file)
    (ht : r.get? (file.languageOr o.language) = some t)
    (hc : (t.tokenize file.source k o.normalization).complete = .ok tokens) :
    totalOf r o files (k + 1) = totalOf r o files k + tokens.length := by
  simp [totalOf_succ hf ht, accepted?, hc, Except.toOption]

lemma filter_maxTokens_eq_none {total : ℕ} (h : ∀ limit ∈ o.maxTokens, total ≤ limit) :
    o.maxTokens.filter (· < total) = none := by
  refine Option.filter_eq_none_iff.mpr fun limit hl hlt => ?_
  exact absurd (of_decide_eq_true hlt) (h limit hl).not_gt

lemma not_noRoomAt_of_failure (hf : files[k]? = some file) (ht : r.get? (file.languageOr o.language) = some t)
    {cause : LexError} (hc : (t.tokenize file.source k o.normalization).complete = .error cause) :
    ¬ NoRoomAt r o files k := by
  intro h
  have := h.accepted
  simp [tokensOf?, hf, ht, hc, Except.toOption] at this

section

variable (hts : tokenizers r o files = .ok ts)

include hts

lemma read_tokenizers (hf : files[k]? = some file) : ∃ t, r.get? (file.languageOr o.language) = some t ∧
    (read ts.toArray k : m _) = pure t := by
  obtain ⟨t, htk, ht⟩ := exists_getElem?_of_forall₂ (tokenizers_eq_ok hts) hf
  obtain ⟨hk, rfl⟩ := List.getElem?_eq_some_iff.mp htk
  exact ⟨ts[k], ht, read_eq_getElem (by simpa using hk)⟩

lemma tokenizeM_eq (hf : files[k]? = some file) (ht : r.get? (file.languageOr o.language) = some t) :
    (tokenizeM ts.toArray o (file, k) : m _) = pure (file,
      (t.tokenize file.source k o.normalization).complete.mapError fun cause => ⟨file.path, t.language, cause⟩) := by
  obtain ⟨t', ht', hread⟩ := read_tokenizers (m := m) hts hf
  obtain rfl := Option.some.inj (ht.symm.trans ht')
  rw [tokenizeM, hread, pure_bind]

omit [LawfulMonad m] in
lemma stepM_eq (hf : files[k]? = some file) (ht : r.get? (file.languageOr o.language) = some t) (a : Assembly) :
    (stepM ts o a (file, k) : ExceptT RunError m _) = a.addM ts.toArray o ((file,
      (t.tokenize file.source k o.normalization).complete.mapError fun cause =>
        ⟨file.path, t.language, cause⟩), k) := by
  rw [stepM, tokenizeM_eq hts hf ht]
  rfl

omit [LawfulMonad m] in
lemma stepM_of_malformed {cause : TokenizationError} (hf : files[k]? = some file)
    (ht : r.get? (file.languageOr o.language) = some t) (hc : failure? o ((file, t), k) = some cause)
    (hfail : o.failOnTokenizationError = true) (a : Assembly) :
    (stepM ts o a (file, k) : ExceptT RunError m _) = throw (.tokenization cause) := by
  obtain ⟨reason, he, rfl⟩ := failure?_eq_some hc
  rw [stepM_eq hts hf ht, he]
  simp only [Assembly.addM, Except.mapError, hfail, if_true]

omit [LawfulMonad m] in
lemma stepM_of_tooManyTokens {tokens : List Token} {limit : ℕ} (hf : files[k]? = some file)
    (ht : r.get? (file.languageOr o.language) = some t)
    (hc : (t.tokenize file.source k o.normalization).complete = .ok tokens)
    (htotal : totalOf r o files (k + 1) = totalOf r o files k + tokens.length) (hl : o.maxTokens = some limit)
    (hlt : limit < totalOf r o files (k + 1)) :
    (stepM ts o (assembled r o files k) (file, k) : ExceptT RunError m _) =
      throw (.tooManyTokens (totalOf r o files (k + 1)) limit) := by
  have hfilter : o.maxTokens.filter (· < totalOf r o files (k + 1)) = some limit := by
    simp [hl, Option.filter, hlt]
  rw [stepM_eq hts hf ht, hc]
  simp only [Assembly.addM, Except.mapError, size_tokens_assembled, ← htotal, hfilter]

open Classical in
lemma stepM_of_tooManyPositions {tokens : List Token} (hf : files[k]? = some file)
    (ht : r.get? (file.languageOr o.language) = some t)
    (hc : (t.tokenize file.source k o.normalization).complete = .ok tokens)
    (htotal : totalOf r o files (k + 1) = totalOf r o files k + tokens.length)
    (hl : ∀ limit ∈ o.maxTokens, totalOf r o files (k + 1) ≤ limit)
    (hlt : maxPositions < totalOf r o files (k + 1) + (gathered r o (files.take k)).length + 1)
    (hle : (gathered r o (files.take k)).length ≤ maxPositions) :
    (stepM ts o (assembled r o files k) (file, k) : ExceptT RunError m _) = (do
      require (¬ NoRoomAt r o files k) .limit
      throw (.tooManyTokens (totalOf r o files (k + 1))
        (maxPositions - (gathered r o (files.take k)).length - 1))) := by
  have haccepted : (tokensOf? r o files k).isSome := by simp [tokensOf?, hf, ht, hc, Except.toOption]
  have hroom : 1 ≤ maxPositions - (gathered r o (files.take k)).length ↔ ¬ NoRoomAt r o files k := by
    constructor
    · intro h hn
      have := hn.taken
      omega
    · intro h
      have hne : (gathered r o (files.take k)).length ≠ maxPositions := fun htaken => h ⟨htaken, haccepted, hl⟩
      omega
  rw [stepM_eq hts hf ht, hc]
  simp only [Assembly.addM, Except.mapError, size_tokens_assembled, size_files_assembled, ← htotal,
    filter_maxTokens_eq_none hl, if_pos hlt, remaining_eq hle, pure_bind]
  rw [remaining, bind_assoc]
  simp only [pure_bind, hroom]

open Classical in
lemma stepM_of_stopsAt (h : StopsAt r o files k e) (hle : (gathered r o (files.take k)).length ≤ maxPositions) :
    ∃ file, files[k]? = some file ∧ (stepM ts o (assembled r o files k) (file, k) : ExceptT RunError m _) =
      (do require (¬ NoRoomAt r o files k) .limit; throw e) := by
  cases h with
  | @malformed file t cause hf ht hc hfail =>
    obtain ⟨reason, he, -⟩ := failure?_eq_some hc
    refine ⟨file, hf, ?_⟩
    rw [require_eq (not_noRoomAt_of_failure hf ht he), pure_bind, stepM_of_malformed hts hf ht hc hfail]
  | @tooManyTokens file t f limit hf ht ha hl hlt =>
    obtain ⟨tokens, hc, -⟩ := accepted?_eq_some ha
    have hroom : ¬ NoRoomAt r o files k := fun h => absurd hlt (h.limit limit hl).not_gt
    refine ⟨file, hf, ?_⟩
    rw [require_eq hroom, pure_bind, stepM_of_tooManyTokens hts hf ht hc (totalOf_succ_of_ok hf ht hc) hl hlt]
  | @tooManyPositions file t f hf ht ha hl hlt =>
    obtain ⟨tokens, hc, -⟩ := accepted?_eq_some ha
    exact ⟨file, hf, stepM_of_tooManyPositions hts hf ht hc (totalOf_succ_of_ok hf ht hc) hl hlt hle⟩

lemma stepM_of_not_stopsAt (hf : files[k]? = some file) (h : ∀ e, ¬ StopsAt r o files k e) :
    (stepM ts o (assembled r o files k) (file, k) : ExceptT RunError m _) = pure (assembled r o files (k + 1)) := by
  obtain ⟨t, ht, hread⟩ := read_tokenizers (m := ExceptT RunError m) hts hf
  have hg := gathered_take_succ hf ht
  have hw := failures_take_succ hf ht
  rw [stepM_eq hts hf ht]
  cases hc : (t.tokenize file.source k o.normalization).complete with
  | error cause =>
    have ha : accepted? o ((file, t), k) = none := by simp [accepted?, hc, Except.toOption]
    have he : failure? o ((file, t), k) = some ⟨file.path, t.language, cause⟩ := by simp [failure?, hc]
    have hfail : o.failOnTokenizationError = false := by
      by_contra hfail
      exact h _ (.malformed hf ht he (by simpa using hfail))
    simp [Assembly.addM, Except.mapError, hfail, assembled, Assembly.of, hg, hw, ha, he]
  | ok tokens =>
    have ha : accepted? o ((file, t), k) = some ⟨file.path, t.language, k, file.source, tokens⟩ := by
      simp [accepted?, hc, Except.toOption]
    have he : failure? o ((file, t), k) = none := by simp [failure?, hc]
    have htotal := totalOf_succ_of_ok hf ht hc
    have hl : ∀ limit ∈ o.maxTokens, totalOf r o files (k + 1) ≤ limit := fun limit hl =>
      Nat.not_lt.mp fun hlt => h _ (.tooManyTokens hf ht ha hl hlt)
    have hp : ¬ maxPositions < totalOf r o files (k + 1) + (gathered r o (files.take k)).length + 1 := fun hlt =>
      h _ (.tooManyPositions hf ht ha hl hlt)
    simp only [Assembly.addM, Except.mapError, size_tokens_assembled, size_files_assembled, ← htotal,
      filter_maxTokens_eq_none hl, if_neg hp, hread, pure_bind]
    rw [assembled, Assembly.addFile_of, assembled, hg, hw, ha, he, Option.toList_some, Option.toList_none,
      List.append_nil]

end

lemma contents_ofFiles (given : List TokenizedFile) : (ofFiles given).contents = given := by
  refine List.ext_getElem? fun k => ?_
  rw [contents, List.getElem?_map, Array.getElem?_toList, getElem?_files]
  cases hf : given[k]? with
  | none => rfl
  | some f =>
    have htokens : (List.range' (startOf given k) f.tokens.length).filterMap (ofFiles given).tokenAt? = f.tokens :=
      filterMap_range' fun i hi => tokenAt?_place hf hi.le
    simp only [Option.map_some, placed, CorpusFile.tokenCount, Nat.add_sub_cancel_left, htokens]

lemma within_of_not_stopsAt (hall : ∀ file ∈ files, HasTokenizer r o file) (hk : k ≤ files.length)
    (h : ∀ i < k, ∀ e, ¬ StopsAt r o files i e) :
    (o.failOnTokenizationError = true → failures r o (files.take k) = []) ∧
      (∀ limit ∈ o.maxTokens, totalOf r o files k ≤ limit) ∧
      totalOf r o files k + (gathered r o (files.take k)).length ≤ maxPositions := by
  induction k with
  | zero => simp [totalOf, gathered, failures]
  | succ k ih =>
    obtain ⟨hfail, hlimit, hroom⟩ := ih (by omega) fun i hi => h i (Nat.lt_succ_of_lt hi)
    have hf := List.getElem?_eq_getElem (by omega : k < files.length)
    obtain ⟨t, ht⟩ := Option.isSome_iff_exists.mp (hall _ (List.mem_of_getElem? hf))
    have hg := gathered_take_succ hf ht
    have hw := failures_take_succ hf ht
    have hn := h k (Nat.lt_succ_self k)
    have htotal := totalOf_succ hf ht
    cases he : failure? o ((files[k], t), k) with
    | some cause =>
      have ha : accepted? o ((files[k], t), k) = none := by
        obtain ⟨reason, hc, -⟩ := failure?_eq_some he
        simp [accepted?, hc, Except.toOption]
      rw [ha, Option.toList_none, List.map_nil, List.sum_nil, Nat.add_zero] at htotal
      rw [htotal, hg, ha, Option.toList_none, List.append_nil]
      exact ⟨fun hfatal => absurd (.malformed hf ht he hfatal) (hn _), hlimit, hroom⟩
    | none =>
      have hfail' : o.failOnTokenizationError = true → failures r o (files.take (k + 1)) = [] := fun hfatal => by
        rw [hw, he, hfail hfatal]
        rfl
      cases ha : accepted? o ((files[k], t), k) with
      | none =>
        rw [ha, Option.toList_none, List.map_nil, List.sum_nil, Nat.add_zero] at htotal
        rw [htotal, hg, ha, Option.toList_none, List.append_nil]
        exact ⟨hfail', hlimit, hroom⟩
      | some f =>
        have hlimit' : ∀ limit ∈ o.maxTokens, totalOf r o files (k + 1) ≤ limit := fun limit hl =>
          Nat.not_lt.mp fun hlt => hn _ (.tooManyTokens hf ht ha hl hlt)
        refine ⟨hfail', hlimit', ?_⟩
        rw [hg, ha, Option.toList_some, List.length_append, List.length_singleton, ← Nat.add_assoc]
        exact Nat.not_lt.mp fun hlt => hn _ (.tooManyPositions hf ht ha hlimit' hlt)

lemma assembled_zero (r : Registry) (o : Options) (files : List SourceFile) : assembled r o files 0 = {} := by
  simp [assembled, Assembly.of, gathered, failures, numberingOf, Numbering.ofKeys, placeFiles]

lemma getElem?_zipIdx_of (hf : files[k]? = some file) : files.zipIdx[k]? = some (file, k) := by
  simp [hf]

lemma foldlM_take (hts : tokenizers r o files = .ok ts) (hk : k ≤ files.length)
    (h : ∀ i < k, ∀ e, ¬ StopsAt r o files i e) :
    ((files.zipIdx.take k).foldlM (stepM ts o) {} : ExceptT RunError m _) =
      pure (assembled r o files k) := by
  induction k with
  | zero =>
    rw [assembled_zero]
    rfl
  | succ k ih =>
    have hf := List.getElem?_eq_getElem (by omega : k < files.length)
    have hadd := stepM_of_not_stopsAt (m := m) hts hf (h k (Nat.lt_succ_self k))
    rw [List.take_add_one, getElem?_zipIdx_of hf, Option.toList_some, List.foldlM_append,
      ih (by omega) fun i hi => h i (Nat.lt_succ_of_lt hi), pure_bind, List.foldlM_cons, hadd, pure_bind]
    rfl

open Classical in
lemma foldlM_of_stopsAt (hts : tokenizers r o files = .ok ts) (hs : StopsAt r o files k e)
    (h : ∀ i < k, ∀ e, ¬ StopsAt r o files i e) :
    (files.zipIdx.foldlM (stepM ts o) {} : ExceptT RunError m _) =
      (do require (¬ NoRoomAt r o files k) .limit; throw e) := by
  have hall := exists_tokenizers_iff.mp ⟨ts, hts⟩
  have hk : k < files.length := hs.lt_length
  obtain ⟨-, -, hroom⟩ := within_of_not_stopsAt hall hk.le h
  obtain ⟨file, hf, hadd⟩ := stepM_of_stopsAt (m := m) hts hs (by omega)
  obtain ⟨hlt, hx⟩ := List.getElem?_eq_some_iff.mp (getElem?_zipIdx_of hf)
  rw [← List.take_append_drop k files.zipIdx, List.drop_eq_getElem_cons hlt, hx, List.foldlM_append,
    foldlM_take hts hk.le h, pure_bind, List.foldlM_cons, hadd, bind_assoc]
  simp only [throw_bind]

/-! ### What is built -/

lemma zipIdx_map_zipIdx {α β : Type*} (f : α × ℕ → β) (s : List α) :
    (s.zipIdx.map f).zipIdx = s.zipIdx.map fun x => (f x, x.2) := by
  refine List.ext_getElem? fun i => ?_
  simp only [List.getElem?_zipIdx, List.getElem?_map, Option.map_map, Function.comp_def, Nat.zero_add]

lemma buildM_of_tokenizers (hts : tokenizers r o files = .ok ts) (hc : cancelled = true → files = []) :
    (buildM r o cancelled files : ExceptT RunError m _) = do
      let a ← files.zipIdx.foldlM (stepM ts o) {}
      let keys ← ExceptT.lift (a.files.toList.zipIdx.foldlM (writeSentinelM a.numbering.next) a.keys)
      return (⟨a.files, a.tokens, keys, a.numbering.next⟩, a.warnings.toList) := by
  have hgo : ¬ (cancelled = true ∧ files ≠ []) := fun h => h.2 (hc h.1)
  have htokenized : (files.zipIdx.mapM (tokenizeM ts.toArray o) : m _) =
      pure (files.zipIdx.map fun x => Id.run (tokenizeM ts.toArray o x)) := by
    apply mapM_eq_pure
    rintro ⟨file, k⟩ hx
    have hf := List.mem_zipIdx_iff_getElem?.mp hx
    obtain ⟨t, ht, -⟩ := read_tokenizers (m := m) hts hf
    rw [tokenizeM_eq hts hf ht, tokenizeM_eq hts hf ht]
    rfl
  rw [buildM, hts]
  change pure ts >>= _ = _
  rw [pure_bind, if_neg hgo]
  simp only [htokenized, lift_pure, pure_bind, zipIdx_map_zipIdx, List.foldlM_map]
  rfl

lemma buildM_of_cancelled (hall : ∀ file ∈ files, HasTokenizer r o file) (hc : cancelled = true) (hne : files ≠ []) :
    (buildM r o cancelled files : ExceptT RunError m _) = throw (.cancelled 0) := by
  obtain ⟨ts, hts⟩ := exists_tokenizers_iff.mpr hall
  rw [buildM, hts]
  change pure ts >>= _ = _
  rw [pure_bind, if_pos ⟨hc, hne⟩]
  exact throw_bind _ _

lemma tokenizers_eq_error (hf : files[k]? = some file) (hn : ¬ HasTokenizer r o file)
    (hb : ∀ file ∈ files.take k, HasTokenizer r o file) :
    tokenizers r o files = .error (.unknownFileLanguage (file.languageOr o.language) file.path) := by
  rw [HasTokenizer, Bool.not_eq_true, Option.isSome_eq_false_iff, Option.isNone_iff_eq_none] at hn
  refine mapM_eq_error hf (by simp only [hn]) fun i hi file' hf' => ?_
  have hm : file' ∈ files.take k := List.mem_of_getElem? ((List.getElem?_take_of_lt hi).trans hf')
  obtain ⟨t, ht⟩ := Option.isSome_iff_exists.mp (hb file' hm)
  exact ⟨t, by simp only [ht]⟩

lemma buildM_of_unknown (hf : files[k]? = some file) (hn : ¬ HasTokenizer r o file)
    (hb : ∀ file ∈ files.take k, HasTokenizer r o file) : (buildM r o cancelled files : ExceptT RunError m _) =
      throw (.configuration (.unknownFileLanguage (file.languageOr o.language) file.path)) := by
  rw [buildM, tokenizers_eq_error hf hn hb]
  exact throw_bind _ _

open Classical in
lemma buildM_of_stopsAt (hall : ∀ file ∈ files, HasTokenizer r o file) (hc : cancelled = true → files = [])
    (hs : StopsAt r o files k e) (h : ∀ i < k, ∀ e, ¬ StopsAt r o files i e) :
    (buildM r o cancelled files : ExceptT RunError m _) =
      (do require (¬ NoRoomAt r o files k) .limit; throw e) := by
  obtain ⟨ts, hts⟩ := exists_tokenizers_iff.mpr hall
  rw [buildM_of_tokenizers hts hc, foldlM_of_stopsAt hts hs h, bind_assoc]
  simp only [throw_bind]

lemma buildM_of_not_stopsAt (hall : ∀ file ∈ files, HasTokenizer r o file) (hc : cancelled = true → files = [])
    (h : ∀ k e, ¬ StopsAt r o files k e) : (buildM r o cancelled files : ExceptT RunError m _) =
      pure (ofFiles (gathered r o files), failures r o files) := by
  obtain ⟨ts, hts⟩ := exists_tokenizers_iff.mpr hall
  have hwalk := foldlM_take (m := m) hts le_rfl fun i _ => h i
  rw [List.take_of_length_le (by rw [List.length_zipIdx])] at hwalk
  rw [buildM_of_tokenizers hts hc, hwalk, pure_bind, assembled, Assembly.foldlM_writeSentinelM_of, List.take_length,
    lift_pure, pure_bind]
  rfl

lemma build_of_unknown (hf : files[k]? = some file) (hn : ¬ HasTokenizer r o file)
    (hb : ∀ file ∈ files.take k, HasTokenizer r o file) : build r o cancelled files =
      .error (.configuration (.unknownFileLanguage (file.languageOr o.language) file.path)) := by
  rw [build, buildM_of_unknown hf hn hb, plain_throw]

lemma build_of_cancelled (hall : ∀ file ∈ files, HasTokenizer r o file) (hc : cancelled = true) (hne : files ≠ []) :
    build r o cancelled files = .error (.cancelled 0) := by
  rw [build, buildM_of_cancelled hall hc hne, plain_throw]

lemma build_of_stopsAt (hall : ∀ file ∈ files, HasTokenizer r o file) (hc : cancelled = true → files = [])
    (hs : StopsAt r o files k e) (hb : ∀ i < k, ∀ e, ¬ StopsAt r o files i e) :
    build r o cancelled files = .error e := by
  classical
  rw [build, buildM_of_stopsAt hall hc hs hb, plain_bind, plain_require]
  rfl

lemma build_of_not_stopsAt (hall : ∀ file ∈ files, HasTokenizer r o file) (hc : cancelled = true → files = [])
    (hn : ∀ k e, ¬ StopsAt r o files k e) :
    build r o cancelled files = .ok (ofFiles (gathered r o files), failures r o files) := by
  rw [build, buildM_of_not_stopsAt hall hc hn, plain_pure]

/-- Whatever is wrong with the files, with the tokenizers' results or with the time at which the run is to end,
what comes of them is decided as told. -/
theorem build_verdict (r : Registry) (o : Options) (cancelled : Bool) (files : List SourceFile) :
    Verdict r o cancelled files (build r o cancelled files) where
  unknown _ _ := build_of_unknown
  ended := build_of_cancelled
  stopped hall hc _ _ := build_of_stopsAt hall hc
  built hall hc hn := ⟨_, build_of_not_stopsAt hall hc hn, contents_ofFiles _⟩

/-- The courses that a run can take. Each of them decides what the run comes to. -/
inductive Course (r : Registry) (o : Options) (cancelled : Bool) (files : List SourceFile) : Prop
  | unknown {k : ℕ} {file : SourceFile} (hf : files[k]? = some file) (hn : ¬ HasTokenizer r o file)
      (hb : ∀ file ∈ files.take k, HasTokenizer r o file)
  | ended (hall : ∀ file ∈ files, HasTokenizer r o file) (hc : cancelled = true) (hne : files ≠ [])
  | stopped {k : ℕ} {e : RunError} (hall : ∀ file ∈ files, HasTokenizer r o file)
      (hc : cancelled = true → files = []) (hs : StopsAt r o files k e) (hb : ∀ i < k, ∀ e, ¬ StopsAt r o files i e)
  | finished (hall : ∀ file ∈ files, HasTokenizer r o file) (hc : cancelled = true → files = [])
      (hn : ∀ k e, ¬ StopsAt r o files k e)

lemma course (r : Registry) (o : Options) (cancelled : Bool) (files : List SourceFile) :
    Course r o cancelled files := by
  classical
  by_cases hall : ∀ file ∈ files, HasTokenizer r o file
  · by_cases hc : cancelled = true → files = []
    · by_cases hs : ∃ k e, StopsAt r o files k e
      · obtain ⟨e, he⟩ := Nat.find_spec hs
        exact .stopped hall hc he fun i hi e he => Nat.find_min hs hi ⟨e, he⟩
      · exact .finished hall hc fun k e he => hs ⟨k, e, he⟩
    · push Not at hc
      exact .ended hall hc.1 hc.2
  · have hn : ∃ (k : ℕ) (file : SourceFile), files[k]? = some file ∧ ¬ HasTokenizer r o file := by
      push Not at hall
      obtain ⟨file, hm, hn⟩ := hall
      obtain ⟨k, hk⟩ := List.mem_iff_getElem?.mp hm
      exact ⟨k, file, hk, hn⟩
    obtain ⟨file, hf, hfile⟩ := Nat.find_spec hn
    refine .unknown hf hfile fun file' hm => ?_
    obtain ⟨i, hi, he⟩ := List.mem_take_iff_getElem.mp hm
    by_contra hno
    exact Nat.find_min hn (lt_min_iff.mp hi).1 ⟨file', List.getElem?_eq_some_iff.mpr ⟨_, he⟩, hno⟩

lemma build_eq_ok_iff : build r o cancelled files = .ok built ↔ (∀ file ∈ files, HasTokenizer r o file) ∧
    (cancelled = true → files = []) ∧ (∀ k e, ¬ StopsAt r o files k e) ∧
      built = (ofFiles (gathered r o files), failures r o files) := by
  constructor
  · intro h
    cases course r o cancelled files with
    | unknown hf hn hb => exact absurd (h.symm.trans (build_of_unknown hf hn hb)) (by simp)
    | ended hall hc hne => exact absurd (h.symm.trans (build_of_cancelled hall hc hne)) (by simp)
    | stopped hall hc hs hb => exact absurd (h.symm.trans (build_of_stopsAt hall hc hs hb)) (by simp)
    | finished hall hc hn => exact ⟨hall, hc, hn, Except.ok.inj (h.symm.trans (build_of_not_stopsAt hall hc hn))⟩
  · rintro ⟨hall, hc, hn, rfl⟩
    exact build_of_not_stopsAt hall hc hn

lemma build_eq_ok (h : build r o cancelled files = .ok built) : built.1 = ofFiles (gathered r o files) := by
  rw [(build_eq_ok_iff.mp h).2.2.2]

lemma failures_of_build (h : build r o cancelled files = .ok built) : built.2 = failures r o files := by
  rw [(build_eq_ok_iff.mp h).2.2.2]

/-! ### When a corpus is built -/

lemma length_toList (o : Options) (x : (SourceFile × Tokenizer) × ℕ) :
    (accepted? o x).toList.length = (if (failure? o x).isSome then 0 else 1) ∧
      (failure? o x).toList.length = if (failure? o x).isSome then 1 else 0 := by
  rw [accepted?, failure?]
  cases (x.1.2.tokenize x.1.1.source x.2 o.normalization).complete <;> exact ⟨rfl, rfl⟩

lemma length_gathered (hall : ∀ file ∈ files, HasTokenizer r o file) :
    (failures r o files).length + (gathered r o files).length = files.length := by
  have htake : ∀ k ≤ files.length,
      (failures r o (files.take k)).length + (gathered r o (files.take k)).length = k := by
    intro k hk
    induction k with
    | zero => simp [gathered, failures]
    | succ k ih =>
      have hf := List.getElem?_eq_getElem (by omega : k < files.length)
      obtain ⟨t, ht⟩ := Option.isSome_iff_exists.mp (hall _ (List.mem_of_getElem? hf))
      obtain ⟨haccepted, hrefused⟩ := length_toList o ((files[k], t), k)
      have := ih (by omega)
      rw [gathered_take_succ hf ht, failures_take_succ hf ht, List.length_append, List.length_append, haccepted,
        hrefused]
      split <;> omega
  simpa using htake files.length le_rfl

lemma length_of_build_eq_ok (h : build r o cancelled files = .ok built) :
    built.2.length + (gathered r o files).length = files.length := by
  obtain ⟨hall, -, -, rfl⟩ := build_eq_ok_iff.mp h
  exact length_gathered hall

lemma gathered_take_sublist (r : Registry) (o : Options) (files : List SourceFile) (n : ℕ) :
    (gathered r o (files.take n)).Sublist (gathered r o files) := by
  conv_rhs => rw [← List.take_append_drop n files]
  rw [gathered, gathered, List.zipIdx_append, List.filterMap_append]
  exact List.sublist_append_left _ _

lemma totalOf_le (r : Registry) (o : Options) (files : List SourceFile) (n : ℕ) :
    totalOf r o files n ≤ ((gathered r o files).map (·.tokens.length)).sum :=
  ((gathered_take_sublist r o files n).map _).sum_le_sum fun _ _ => Nat.zero_le _

lemma exists_build_iff : (∃ built, build r o cancelled files = .ok built) ↔
    (∀ file ∈ files, HasTokenizer r o file) ∧ (cancelled = true → files = []) ∧
      (o.failOnTokenizationError = true → (gathered r o files).length = files.length) ∧
      (∀ limit ∈ o.maxTokens, ((gathered r o files).map (·.tokens.length)).sum ≤ limit) ∧
      ((gathered r o files).map (·.tokens.length)).sum + (gathered r o files).length ≤ maxPositions := by
  have htotal : totalOf r o files files.length = ((gathered r o files).map (·.tokens.length)).sum := by
    rw [totalOf, List.take_length]
  constructor
  · rintro ⟨built, h⟩
    obtain ⟨hall, hc, hn, -⟩ := build_eq_ok_iff.mp h
    obtain ⟨hfail, hlimit, hroom⟩ := within_of_not_stopsAt hall le_rfl fun i _ => hn i
    rw [List.take_length] at hfail hroom
    rw [htotal] at hlimit hroom
    refine ⟨hall, hc, fun hfatal => ?_, hlimit, hroom⟩
    rw [← length_gathered hall, hfail hfatal, List.length_nil, Nat.zero_add]
  · rintro ⟨hall, hc, hfail, hlimit, hroom⟩
    refine ⟨_, build_eq_ok_iff.mpr ⟨hall, hc, fun k e hs => ?_, rfl⟩⟩
    have hle := totalOf_le r o files (k + 1)
    cases hs with
    | @malformed file t cause hf ht he hfatal =>
      have hlength := length_gathered hall
      rw [hfail hfatal, Nat.add_eq_right, List.length_eq_zero_iff] at hlength
      have hmem : cause ∈ failures r o files :=
        List.mem_filterMap.mpr ⟨(file, k), List.mem_zipIdx_iff_getElem?.mpr hf, by simp only [ht, Option.bind_some, he]⟩
      rw [hlength] at hmem
      exact absurd hmem List.not_mem_nil
    | @tooManyTokens file t f limit hf ht ha hl hlt =>
      have := hlimit limit hl
      omega
    | @tooManyPositions file t f hf ht ha hl hlt =>
      have hsub := (gathered_take_sublist r o files (k + 1)).length_le
      rw [gathered_take_succ hf ht, ha, Option.toList_some, List.length_append, List.length_singleton] at hsub
      omega

end CodeClones.Corpus
