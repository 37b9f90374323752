import CodeClones.Proofs.Corpus.Layout
import CodeClones.Proofs.SuffixIndex.Order

/-! The numbers of a corpus are equal where the keys are. A sentinel equals nothing else. -/

namespace CodeClones.Corpus

open SuffixIndex

variable {files : List TokenizedFile} {f g : TokenizedFile} {t u : Token} {k l i j length p q : ℕ}

lemma numberingOf_eq (files : List TokenizedFile) :
    numberingOf files = .ofKeys (files.map fun f => f.tokens.map (·.key)).flatten := by
  rw [numberingOf, ← List.flatMap_def, ← List.map_flatMap]

lemma lists_numberingOf (files : List TokenizedFile) :
    (numberingOf files).Lists ((files.flatMap (·.tokens)).map (·.key)) :=
  Numbering.lists_ofKeys _

lemma size_keys (files : List TokenizedFile) : (ofFiles files).keys.size = startOf files files.length :=
  length_numberKeys (numberingOf files) files

lemma add_lt_size (hf : files[k]? = some f) (hi : i ≤ f.tokens.length) :
    startOf files k + i < (ofFiles files).keys.size := by
  have hk := (List.getElem?_eq_some_iff.mp hf).1
  have := startOf_add_lt hf hk
  rw [size_keys]
  omega

lemma getElem?_keys (hf : files[k]? = some f) (hi : i ≤ f.tokens.length) :
    (ofFiles files).keys[startOf files k + i]? = (numbersOf (numberingOf files) f k)[i]? := by
  rw [← getElem?_numberKeys (numberingOf files) hf hi]
  simp only [ofFiles, List.getElem?_toArray, numberingOf]

lemma key_of_token (hf : files[k]? = some f) (ht : f.tokens[i]? = some t) :
    (ofFiles files).keys[startOf files k + i]? = some ((numberingOf files).numberOf t.key) := by
  have hi := (List.getElem?_eq_some_iff.mp ht).1
  rw [getElem?_keys hf (Nat.le_of_lt hi), numbersOf, List.getElem?_append_left (by simpa using hi),
    List.getElem?_map, ht]
  rfl

lemma sentinel (hf : files[k]? = some f) :
    (ofFiles files).keys[startOf files k + f.tokens.length]? = some ((numberingOf files).next + k) := by
  rw [getElem?_keys hf (Nat.le_refl _), numbersOf, List.getElem?_append_right (by simp)]
  simp

lemma mem_keys (hf : files[k]? = some f) (ht : f.tokens[i]? = some t) :
    t.key ∈ (files.flatMap (·.tokens)).map (·.key) :=
  List.mem_map_of_mem (List.mem_flatMap.mpr ⟨f, List.mem_of_getElem? hf, List.mem_of_getElem? ht⟩)

lemma keys_eq_iff (hf : files[k]? = some f) (hg : files[l]? = some g) (hi : i < f.tokens.length)
    (hj : j < g.tokens.length) :
    (ofFiles files).keys[startOf files k + i]? = (ofFiles files).keys[startOf files l + j]? ↔
      f.tokens[i]?.map (·.key) = g.tokens[j]?.map (·.key) := by
  have ht := List.getElem?_eq_getElem hi
  have hu := List.getElem?_eq_getElem hj
  rw [key_of_token hf ht, key_of_token hg hu, ht, hu, Option.some.injEq, Option.map_some, Option.map_some,
    Option.some.injEq]
  exact (lists_numberingOf files).numberOf_inj (mem_keys hf ht) (mem_keys hg hu)

lemma sentinel_unique (hf : files[k]? = some f)
    (he : (ofFiles files).keys[q]? = (ofFiles files).keys[startOf files k + f.tokens.length]?) :
    q = startOf files k + f.tokens.length := by
  rw [sentinel hf] at he
  have hq := (Array.getElem?_eq_some_iff.mp he).1
  rw [size_keys] at hq
  obtain ⟨l, g, j, hg, hj, rfl⟩ := exists_place hq
  rcases Nat.lt_or_eq_of_le hj with hlt | rfl
  · have ht := List.getElem?_eq_getElem hlt
    have hn := (lists_numberingOf files).numberOf_lt (mem_keys hg ht)
    rw [key_of_token hg ht, Option.some.injEq] at he
    omega
  · rw [sentinel hg, Option.some.injEq] at he
    obtain rfl : l = k := by omega
    rw [hf, Option.some.injEq] at hg
    rw [hg]

lemma agree_iff (hf : files[k]? = some f) (hg : files[l]? = some g) (hi : i + length ≤ f.tokens.length)
    (hj : j + length ≤ g.tokens.length) :
    Agree (ofFiles files).keys length (startOf files k + i) (startOf files l + j) ↔
      ∀ n < length, f.tokens[i + n]?.map (·.key) = g.tokens[j + n]?.map (·.key) := by
  refine forall₂_congr fun n hn => ?_
  rw [Nat.add_assoc, Nat.add_assoc]
  exact keys_eq_iff hf hg (by omega) (by omega)

end CodeClones.Corpus
