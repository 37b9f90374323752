import Mathlib.Data.List.Nodup
import Mathlib.Tactic.Common
import CodeClones.Proofs.Corpus.Layout
import CodeClones.Proofs.Success

/-! A corpus holds the files that can be tokenized, in the order in which they are given. -/

namespace CodeClones.Corpus

open Success

variable {r : Registry} {o : Options} {files : List SourceFile} {f g : TokenizedFile} {k l n : ℕ}

def tokensOf? (r : Registry) (o : Options) (files : List SourceFile) (index : ℕ) : Option (List Token) := do
  let file ← files[index]?
  let t ← r.get? (file.languageOr o.language)
  (t.tokenize file.source index o.normalization).complete.toOption

def accepted? (o : Options) (file : (SourceFile × Tokenizer) × ℕ) : Option TokenizedFile :=
  (file.1.2.tokenize file.1.1.source file.2 o.normalization).complete.toOption.map fun tokens =>
    ⟨file.1.1.path, file.1.2.language, file.2, file.1.1.source, tokens⟩

def gathered (r : Registry) (o : Options) (files : List SourceFile) : List TokenizedFile :=
  files.zipIdx.filterMap fun file =>
    (r.get? (file.1.languageOr o.language)).bind fun t => accepted? o ((file.1, t), file.2)

def HasTokenizer (r : Registry) (o : Options) (file : SourceFile) : Prop :=
  (r.get? (file.languageOr o.language)).isSome

lemma tokenizers_eq_ok {ts : List Tokenizer} (h : tokenizers r o files = .ok ts) :
    List.Forall₂ (fun f t => r.get? (f.languageOr o.language) = some t) files ts := by
  refine (mapM_eq_ok.mp h).imp fun f t ht => ?_
  dsimp only at ht
  split at ht
  · next t' ht' => rw [ht', Except.ok.inj ht]
  · exact absurd ht (by simp)

lemma exists_tokenizers_iff : (∃ ts, tokenizers r o files = .ok ts) ↔ ∀ file ∈ files, HasTokenizer r o file := by
  rw [tokenizers, exists_mapM_iff]
  refine forall₂_congr fun file _ => ?_
  rw [HasTokenizer]
  dsimp only
  cases r.get? (file.languageOr o.language) with
  | none => exact iff_of_false (by simp) (by simp)
  | some t => exact iff_of_true ⟨t, rfl⟩ rfl

lemma inputIndex_of_accepted {file : SourceFile} {t : Tokenizer} (h : accepted? o ((file, t), n) = some f) :
    f.inputIndex = n := by
  obtain ⟨tokens, -, rfl⟩ := Option.map_eq_some_iff.mp h
  rfl

lemma mem_gathered : f ∈ gathered r o files ↔ ∃ file t, files[f.inputIndex]? = some file ∧
    r.get? (file.languageOr o.language) = some t ∧ accepted? o ((file, t), f.inputIndex) = some f := by
  simp only [gathered, List.mem_filterMap, Prod.exists, List.mem_zipIdx_iff_getElem?, Option.bind_eq_some_iff]
  constructor
  · rintro ⟨file, n, hn, t, ht, ha⟩
    obtain rfl := inputIndex_of_accepted ha
    exact ⟨file, t, hn, ht, ha⟩
  · rintro ⟨file, t, hn, ht, ha⟩
    exact ⟨file, f.inputIndex, hn, t, ht, ha⟩

lemma tokensOf?_of_mem (h : f ∈ gathered r o files) : ∃ file, files[f.inputIndex]? = some file ∧
    f.path = file.path ∧ tokensOf? r o files f.inputIndex = some f.tokens := by
  obtain ⟨file, t, hf, ht, ha⟩ := mem_gathered.mp h
  obtain ⟨tokens, hc, he⟩ := Option.map_eq_some_iff.mp ha
  refine ⟨file, hf, by rw [← he], ?_⟩
  have hs : f.tokens = tokens := by rw [← he]
  simp only [tokensOf?, hf, Option.bind_eq_bind, Option.bind_some, ht, hs]
  exact hc

lemma exists_mem_of_tokensOf? {tokens : List Token} (h : tokensOf? r o files n = some tokens) :
    ∃ f ∈ gathered r o files, f.inputIndex = n ∧ f.tokens = tokens := by
  simp only [tokensOf?, Option.bind_eq_bind, Option.bind_eq_some_iff] at h
  obtain ⟨file, hf, t, ht, hc⟩ := h
  exact ⟨⟨file.path, t.language, n, file.source, tokens⟩,
    mem_gathered.mpr ⟨file, t, hf, ht, by simp only [accepted?, hc, Option.map_some]⟩, rfl, rfl⟩

lemma pairwise_inputIndex (r : Registry) (o : Options) (files : List SourceFile) :
    (gathered r o files).Pairwise fun f g => f.inputIndex < g.inputIndex := by
  have hz : files.zipIdx.Pairwise fun x y => x.2 < y.2 := by
    rw [← List.pairwise_map, List.zipIdx_map_snd]
    exact List.pairwise_lt_range'
  refine List.pairwise_filterMap.mpr (hz.imp fun {x y} hxy f hf g hg => ?_)
  obtain ⟨t, -, hf⟩ := Option.bind_eq_some_iff.mp hf
  obtain ⟨u, -, hg⟩ := Option.bind_eq_some_iff.mp hg
  rw [inputIndex_of_accepted hf, inputIndex_of_accepted hg]
  exact hxy

lemma index_unique {given : List TokenizedFile} (hp : given.Pairwise fun f g => f.inputIndex < g.inputIndex)
    (hf : given[k]? = some f) (hg : given[l]? = some g) (he : f.inputIndex = g.inputIndex) : k = l := by
  obtain ⟨hk, rfl⟩ := List.getElem?_eq_some_iff.mp hf
  obtain ⟨hl, rfl⟩ := List.getElem?_eq_some_iff.mp hg
  have hp := List.pairwise_iff_getElem.mp hp
  rcases Nat.lt_trichotomy k l with h | h | h
  · have := hp k l hk hl h
    omega
  · exact h
  · have := hp l k hl hk h
    omega

end CodeClones.Corpus
