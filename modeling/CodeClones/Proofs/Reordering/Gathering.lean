import Mathlib.Logic.Equiv.Fin.Basic
import CodeClones.Proofs.Corpus.Gathering
import CodeClones.Proofs.Reordering.Places

/-! Files in another order: their texts are the same. -/

namespace CodeClones

open Corpus Success

variable {r : Registry} {o : Options} {files : List SourceFile} {texts : Texts} {n : ℕ}
  {σ : Equiv.Perm (Fin files.length)}

def Corpus.keysOf? (r : Registry) (o : Options) (files : List SourceFile) : Texts :=
  fun file => (tokensOf? r o files file).map (·.map (·.key))

/-- The files in another order. File number `n` is the one that was number `σ n`. -/
def reordered (files : List SourceFile) (σ : Equiv.Perm (Fin files.length)) : List SourceFile :=
  List.ofFn fun n => files[σ n]

def oldNumber {n : ℕ} (σ : Equiv.Perm (Fin n)) : Equiv.Perm ℕ := σ.extendDomain Fin.equivSubtype

lemma oldNumber_of_lt (σ : Equiv.Perm (Fin n)) (k : Fin n) : oldNumber σ k = σ k :=
  σ.extendDomain_apply_image Fin.equivSubtype k

lemma oldNumber_of_le (σ : Equiv.Perm (Fin n)) {k : ℕ} (h : n ≤ k) : oldNumber σ k = k :=
  σ.extendDomain_apply_not_subtype Fin.equivSubtype (Nat.not_lt.mpr h)

@[simp] lemma length_reordered : (reordered files σ).length = files.length := by
  simp [reordered]

lemma keysOf?_eq_none {k : ℕ} (h : files.length ≤ k) : keysOf? r o files k = none := by
  simp only [keysOf?, tokensOf?, List.getElem?_eq_none h]
  rfl

lemma keysOf?_reordered (h : ∀ n : Fin files.length, keysOf? r o (reordered files σ) n = keysOf? r o files (σ n))
    (k : ℕ) : keysOf? r o (reordered files σ) k = keysOf? r o files (oldNumber σ k) := by
  rcases Nat.lt_or_ge k files.length with hk | hk
  · have := oldNumber_of_lt σ ⟨k, hk⟩
    dsimp only at this
    rw [this]
    exact h ⟨k, hk⟩
  · rw [oldNumber_of_le σ hk, keysOf?_eq_none hk, keysOf?_eq_none (by rwa [length_reordered])]

lemma mem_reordered_iff {file : SourceFile} : file ∈ reordered files σ ↔ file ∈ files := by
  rw [reordered, List.mem_ofFn]
  constructor
  · rintro ⟨n, rfl⟩
    exact List.getElem_mem _
  · intro hf
    obtain ⟨k, hk, rfl⟩ := List.mem_iff_getElem.mp hf
    exact ⟨σ.symm ⟨k, hk⟩, by simp⟩

lemma numbers_gathered (e : Equiv.Perm ℕ) (h : ∀ n, keysOf? r o files n = texts (e n)) :
    texts.Numbers e (gathered r o files) := by
  constructor
  · intro k l f g hf hg he
    exact index_unique (pairwise_inputIndex r o files) hf hg (e.injective he)
  · intro text keys
    obtain ⟨n, rfl⟩ := e.surjective text
    rw [← h, keysOf?, Option.map_eq_some_iff]
    constructor
    · rintro ⟨tokens, ht, rfl⟩
      obtain ⟨f, hf, rfl, rfl⟩ := exists_mem_of_tokensOf? ht
      exact ⟨f, hf, rfl, rfl⟩
    · rintro ⟨f, hf, he, rfl⟩
      obtain ⟨-, -, -, ht⟩ := tokensOf?_of_mem hf
      exact ⟨f.tokens, e.injective he ▸ ht, rfl⟩

end CodeClones
