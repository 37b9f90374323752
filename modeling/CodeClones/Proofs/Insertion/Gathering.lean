import CodeClones.Proofs.Corpus.Outcome
import CodeClones.Proofs.Insertion.Files
import CodeClones.Proofs.Reordering.Gathering

/-! What is gathered if a file without tokens is put in among others. -/

namespace CodeClones

open Corpus Success

def Tokenizer.ReadsAlike (t : Tokenizer) (source : String) (n : Normalization) (i j : ℕ) : Prop :=
  (t.tokenize source i n).complete.map (·.map (·.unnumbered)) =
    (t.tokenize source j n).complete.map (·.map (·.unnumbered))

lemma Tokenizer.ReadsAlike.error_or_ok {t : Tokenizer} {source : String} {n : Normalization} {i j : ℕ}
    (h : t.ReadsAlike source n i j) :
    (∃ e, (t.tokenize source i n).complete = .error e ∧ (t.tokenize source j n).complete = .error e) ∨
      ∃ tokens tokens', (t.tokenize source i n).complete = .ok tokens ∧ (t.tokenize source j n).complete = .ok tokens' ∧
        tokens'.map (·.unnumbered) = tokens.map (·.unnumbered) := by
  rw [ReadsAlike] at h
  cases hi : (t.tokenize source i n).complete with
  | error e =>
    rw [hi] at h
    exact .inl ⟨e, rfl, map_eq_error.mp h.symm⟩
  | ok tokens =>
    rw [hi] at h
    obtain ⟨tokens', hj, he⟩ := map_eq_ok.mp h.symm
    exact .inr ⟨tokens, tokens', rfl, hj, he⟩

/-! ### Tokenizers that do not look at the number of a file -/

lemma Normalization.map_unnumbered_apply (n : Normalization) (t : Token) :
    (n.apply t).map (·.unnumbered) = n.apply t.unnumbered := by
  have hkind : t.unnumbered.kind = t.kind := rfl
  rw [apply, apply, hkind]
  split
  · rfl
  · split <;> rfl

lemma TokenStream.complete_normalize_alike {s s' : TokenStream} (n : Normalization)
    (h : s.tokens.map (·.unnumbered) = s'.tokens.map (·.unnumbered)) (he : s.error = s'.error) :
    (s.normalize n).complete.map (·.map (·.unnumbered)) = (s'.normalize n).complete.map (·.map (·.unnumbered)) := by
  have hmap : ∀ tokens : List Token, (tokens.filterMap n.apply).map (·.unnumbered) =
      (tokens.map (·.unnumbered)).filterMap n.apply := fun tokens => by
    rw [List.map_filterMap, List.filterMap_map]
    simp only [n.map_unnumbered_apply]
    rfl
  simp only [complete, normalize, he]
  cases s'.error with
  | none => exact congrArg Except.ok ((hmap _).trans ((congrArg (List.filterMap n.apply) h).trans (hmap _).symm))
  | some e => rfl

lemma Source.map_unnumbered_tokensOnto (i j : ℕ) (p : Position) (ss : List Segment) :
    (tokensOnto i [] p ss).map (·.unnumbered) = (tokensOnto j [] p ss).map (·.unnumbered) := by
  induction ss generalizing p with
  | nil => rfl
  | cons s ss ih =>
    rw [tokensOnto, tokensOnto, tokensOnto_eq, tokensOnto_eq j, List.map_append, List.map_append, ih]
    congr 1
    obtain ⟨role, text⟩ := s
    cases role <;> rfl

lemma Tokenizer.readsAlike_ofLanguage (l : Language) (source : String) (n : Normalization) (i j : ℕ) :
    (ofLanguage l).ReadsAlike source n i j :=
  TokenStream.complete_normalize_alike n (Source.map_unnumbered_tokensOnto i j .start _) rfl

lemma Tokenizer.readsAlike_words (language : String) (extensions : List String) (source : String) (n : Normalization)
    (i j : ℕ) : (words language extensions).ReadsAlike source n i j := by
  refine TokenStream.complete_normalize_alike n ?_ rfl
  rw [List.map_flatMap, List.map_flatMap]
  simp only [lineWords, List.map_map]
  rfl

lemma Registry.mem_of_get? {r : Registry} {name : String} {t : Tokenizer} (h : r.get? name = some t) :
    t ∈ r.tokenizers := by
  obtain ⟨place, -, ht⟩ := Option.bind_eq_some_iff.mp h
  exact List.mem_of_getElem? ht

lemma Registry.tokenizers_builtin : builtin.tokenizers = Language.builtin.map .ofLanguage := by
  have hfold : ∀ (languages : List Language) (r : Registry),
      (languages.foldl (fun r l => r.register (.ofLanguage l) l.aliases) r).tokenizers =
        r.tokenizers ++ languages.map .ofLanguage := by
    intro languages
    induction languages with
    | nil => exact fun r => (List.append_nil _).symm
    | cons l languages ih =>
      intro r
      rw [List.foldl_cons, ih, register, List.append_assoc, List.map_cons, List.singleton_append]
  exact hfold _ _

namespace Corpus

variable {r : Registry} {o : Options} {files pre post : List SourceFile} {file : SourceFile} {t : Tokenizer} {i j k : ℕ}
  {number : ℕ → ℕ}

/-- From file number `k` on, all files are tokenized alike under the next number. -/
def ReadsAlikeFrom (r : Registry) (o : Options) (files : List SourceFile) (k : ℕ) : Prop :=
  ∀ n file t, k ≤ n → files[n]? = some file → r.get? (file.languageOr o.language) = some t →
    t.ReadsAlike file.source o.normalization n (n + 1)

lemma readsAlikeFrom_builtin (o : Options) (files : List SourceFile) (k : ℕ) : ReadsAlikeFrom .builtin o files k := by
  intro n file t _ _ ht
  obtain ⟨l, -, rfl⟩ := List.mem_map.mp (Registry.tokenizers_builtin ▸ Registry.mem_of_get? ht)
  exact Tokenizer.readsAlike_ofLanguage l file.source o.normalization n (n + 1)

lemma exists_language_of_mem {f : TokenizedFile} (h : f ∈ gathered .builtin o files) :
    ∃ file, ∃ l ∈ Language.builtin, files[f.inputIndex]? = some file ∧ f.source = file.source ∧
      f.tokens = (l.tokenize file.source f.inputIndex o.normalization).tokens := by
  obtain ⟨file, t, hfile, ht, ha⟩ := mem_gathered.mp h
  obtain ⟨l, hl, rfl⟩ := List.mem_map.mp (Registry.tokenizers_builtin ▸ Registry.mem_of_get? ht)
  obtain ⟨tokens, hc, he⟩ := accepted?_eq_some ha
  refine ⟨file, l, hl, hfile, by rw [he], ?_⟩
  rw [TokenStream.complete] at hc
  split at hc
  · rw [he, ← Except.ok.inj hc]
    rfl
  · exact absurd hc (by simp)

lemma readsAlikeFrom_words (language : String) (o : Options) (files : List SourceFile) (k : ℕ) :
    ReadsAlikeFrom (.register .empty (.words language []) []) o files k := by
  intro n file t _ _ ht
  obtain rfl := List.mem_singleton.mp (Registry.mem_of_get? ht)
  exact Tokenizer.readsAlike_words language [] file.source o.normalization n (n + 1)

lemma accepted?_alike (h : t.ReadsAlike file.source o.normalization i j) (hn : number i = j) :
    Option.Rel (·.Renumbered number) (accepted? o ((file, t), i)) (accepted? o ((file, t), j)) := by
  simp only [accepted?]
  rcases h.error_or_ok with ⟨e, hi, hj⟩ | ⟨tokens, tokens', hi, hj, he⟩
  · rw [hi, hj]
    exact .none
  · rw [hi, hj]
    exact .some ⟨rfl, rfl, hn.symm, he⟩

lemma failure?_alike (h : t.ReadsAlike file.source o.normalization i j) :
    failure? o ((file, t), i) = failure? o ((file, t), j) := by
  simp only [failure?]
  rcases h.error_or_ok with ⟨e, hi, hj⟩ | ⟨tokens, tokens', hi, hj, -⟩ <;> rw [hi, hj]

lemma forall₂_filterMap_zipIdx {α β : Type*} {R : β → β → Prop} {c : α × ℕ → Option β} {s : List α}
    (h : ∀ n a, s[n]? = some a → Option.Rel R (c (a, k + n)) (c (a, k + n + 1))) :
    List.Forall₂ R ((s.zipIdx k).filterMap c) ((s.zipIdx (k + 1)).filterMap c) := by
  induction s generalizing k with
  | nil => exact .nil
  | cons a s ih =>
    have hfirst := h 0 a rfl
    have hrest := ih (k := k + 1) fun n b hb => by
      rw [Nat.add_assoc k, Nat.add_comm 1]
      exact h (n + 1) b hb
    rw [List.zipIdx_cons, List.zipIdx_cons, List.filterMap_cons, List.filterMap_cons]
    rw [Nat.add_zero] at hfirst
    generalize c (a, k) = x, c (a, k + 1) = y at hfirst
    cases hfirst with
    | some hab => exact .cons hab hrest
    | none => exact hrest

def YieldsNothing (o : Options) (t : Tokenizer) (file : SourceFile) (k : ℕ) : Prop :=
  ∀ tokens, (t.tokenize file.source k o.normalization).complete = .ok tokens → tokens = []

def gatheredFrom (r : Registry) (o : Options) (k : ℕ) (files : List SourceFile) : List TokenizedFile :=
  (files.zipIdx k).filterMap fun x => (r.get? (x.1.languageOr o.language)).bind fun t => accepted? o ((x.1, t), x.2)

def failuresFrom (r : Registry) (o : Options) (k : ℕ) (files : List SourceFile) : List TokenizationError :=
  (files.zipIdx k).filterMap fun x => (r.get? (x.1.languageOr o.language)).bind fun t => failure? o ((x.1, t), x.2)

lemma gathered_append (pre post : List SourceFile) :
    gathered r o (pre ++ post) = gathered r o pre ++ gatheredFrom r o pre.length post := by
  rw [gathered, List.zipIdx_append, List.filterMap_append, Nat.zero_add]
  rfl

lemma failures_append (pre post : List SourceFile) :
    failures r o (pre ++ post) = failures r o pre ++ failuresFrom r o pre.length post := by
  rw [failures, List.zipIdx_append, List.filterMap_append, Nat.zero_add]
  rfl

lemma gathered_insert (ht : r.get? (file.languageOr o.language) = some t) : gathered r o (pre ++ file :: post) =
    gathered r o pre ++ ((accepted? o ((file, t), pre.length)).toList ++ gatheredFrom r o (pre.length + 1) post) := by
  rw [gathered_append, gatheredFrom, List.zipIdx_cons, List.filterMap_cons, ht]
  simp only [Option.bind_some]
  cases accepted? o ((file, t), pre.length) <;> rfl

lemma failures_insert (ht : r.get? (file.languageOr o.language) = some t) : failures r o (pre ++ file :: post) =
    failures r o pre ++ ((failure? o ((file, t), pre.length)).toList ++ failuresFrom r o (pre.length + 1) post) := by
  rw [failures_append, failuresFrom, List.zipIdx_cons, List.filterMap_cons, ht]
  simp only [Option.bind_some]
  cases failure? o ((file, t), pre.length) <;> rfl

variable (halike : ReadsAlikeFrom r o (pre ++ post) pre.length)

include halike

lemma readsAlike_post {n : ℕ} (hf : post[n]? = some file) (ht : r.get? (file.languageOr o.language) = some t) :
    t.ReadsAlike file.source o.normalization (pre.length + n) (pre.length + n + 1) := by
  refine halike (pre.length + n) file t (Nat.le_add_right _ _) ?_ ht
  rw [List.getElem?_append_right (Nat.le_add_right _ _), Nat.add_sub_cancel_left, hf]

lemma failuresFrom_succ : failuresFrom r o (pre.length + 1) post = failuresFrom r o pre.length post := by
  have hall : List.Forall₂ (· = ·) (failuresFrom r o pre.length post) (failuresFrom r o (pre.length + 1) post) := by
    refine forall₂_filterMap_zipIdx fun n file hf => ?_
    cases ht : r.get? (file.languageOr o.language) with
    | none => exact .none
    | some t =>
      simp only [Option.bind_some, failure?_alike (readsAlike_post halike hf ht)]
      cases failure? o ((file, t), pre.length + n + 1) with
      | none => exact .none
      | some failure => exact .some rfl
  exact (List.forall₂_eq_eq_eq ▸ hall : _ = _).symm

lemma forall₂_gatheredFrom : List.Forall₂ (·.Renumbered (makeRoom pre.length 1)) (gatheredFrom r o pre.length post)
    (gatheredFrom r o (pre.length + 1) post) := by
  refine forall₂_filterMap_zipIdx fun n file hf => ?_
  cases ht : r.get? (file.languageOr o.language) with
  | none => exact .none
  | some t => exact accepted?_alike (readsAlike_post halike hf ht) (makeRoom_of_le (Nat.le_add_right _ _))

lemma widens_gathered (hempty : YieldsNothing o t file pre.length) :
    Widens (makeRoom pre.length 1) (gathered r o pre) (gatheredFrom r o pre.length post)
      (accepted? o ((file, t), pre.length)).toList (gathered r o pre) (gatheredFrom r o (pre.length + 1) post) where
  mono := strictMono_makeRoom _ _
  pre := by
    refine List.forall₂_same.mpr fun f hf => ⟨rfl, rfl, ?_, rfl⟩
    obtain ⟨file, -, hfile, -⟩ := mem_gathered.mp hf
    rw [makeRoom_of_lt (List.getElem?_eq_some_iff.mp hfile).1]
  post := forall₂_gatheredFrom halike
  extra e he := by
    obtain ⟨tokens, hc, rfl⟩ := accepted?_eq_some (Option.mem_toList.mp he)
    refine ⟨hempty tokens hc, fun n => ?_⟩
    change makeRoom pre.length 1 n ≠ pre.length
    rw [makeRoom]
    split <;> omega

lemma build_insert {built : Corpus × List TokenizationError} (hb : build r o false (pre ++ post) = .ok built)
    (hskip : o.failOnTokenizationError = false) (ht : r.get? (file.languageOr o.language) = some t)
    (hempty : YieldsNothing o t file pre.length)
    (hroom : failure? o ((file, t), pre.length) = none →
      ((gathered r o (pre ++ post)).map (·.tokens.length)).sum + (gathered r o (pre ++ post)).length < maxPositions) :
    build r o false (pre ++ file :: post) =
      .ok (ofFiles (gathered r o (pre ++ file :: post)), failures r o (pre ++ file :: post)) := by
  obtain ⟨hknown, -, -, hlimit, hfits⟩ := exists_build_iff.mp ⟨built, hb⟩
  have hlength : (gathered r o (pre ++ file :: post)).length =
      (gathered r o (pre ++ post)).length + (accepted? o ((file, t), pre.length)).toList.length := by
    have hlate := (forall₂_gatheredFrom halike).length_eq
    rw [gathered_insert ht, gathered_append, List.length_append, List.length_append, List.length_append, hlate]
    omega
  rw [(length_toList o _).1] at hlength
  have hsum := (widens_gathered halike hempty).sum_length_eq
  rw [← gathered_append, ← gathered_insert ht] at hsum
  obtain ⟨built', hb'⟩ : ∃ built', build r o false (pre ++ file :: post) = .ok built' := by
    refine exists_build_iff.mpr ⟨fun file' hf => ?_, by simp, by simp [hskip], by rwa [hsum], ?_⟩
    · rcases List.mem_append.mp hf with hf | hf
      · exact hknown file' (List.mem_append_left _ hf)
      · rcases List.mem_cons.mp hf with rfl | hf
        · exact Option.isSome_iff_exists.mpr ⟨t, ht⟩
        · exact hknown file' (List.mem_append_right _ hf)
    · rw [hsum, hlength]
      cases hfail : failure? o ((file, t), pre.length) with
      | none => exact hroom hfail
      | some _ => exact hfits
  rw [hb', ← build_eq_ok hb', ← failures_of_build hb']

end Corpus

end CodeClones
