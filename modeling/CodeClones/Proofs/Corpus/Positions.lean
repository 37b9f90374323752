import CodeClones.Proofs.Corpus.Keys

/-! What is at the positions of a corpus: which file, which token, or a sentinel. -/

namespace CodeClones.Corpus

variable {files : List TokenizedFile} {f : TokenizedFile} {k i p m n length : ℕ}

lemma exists_place_of_lt (hp : p < (ofFiles files).keys.size) :
    ∃ k f i, files[k]? = some f ∧ i ≤ f.tokens.length ∧ p = startOf files k + i :=
  exists_place (size_keys files ▸ hp)

@[simp] lemma size_files (files : List TokenizedFile) : (ofFiles files).files.size = files.length := by
  have hn : ∀ n (s : List TokenizedFile), (placeFiles n s).length = s.length := by
    intro n s
    induction s generalizing n with
    | nil => rfl
    | cons f s ih => simp [placeFiles, ih]
  simpa [ofFiles] using hn 0 files

lemma size_tokens (files : List TokenizedFile) :
    (ofFiles files).tokens.size = (files.map (·.tokens.length)).sum := by
  simp [ofFiles]

lemma fileAt_place (hf : files[k]? = some f) (hi : i ≤ f.tokens.length) :
    (ofFiles files).fileAt (startOf files k + i) = k := by
  have hk := (List.getElem?_eq_some_iff.mp hf).1
  refine partitionPoint_eq (Nat.zero_le k) (by simpa using hk.le) (fun l _ hl => ?_) fun l hl hn => ?_
  · have hg := List.getElem?_eq_getElem (hl.trans hk)
    have := startOf_add_lt hg hl
    rw [getElem?_files, hg]
    simp only [Option.map_some, placed, Option.any_some, decide_eq_true_eq]
    omega
  · have hg := List.getElem?_eq_getElem (size_files files ▸ hn)
    rw [getElem?_files, hg]
    simp only [Option.map_some, placed, Option.any_some, decide_eq_false_iff_not, not_lt]
    rcases Nat.lt_or_eq_of_le hl with hl | rfl
    · have := startOf_add_lt hf hl
      omega
    · rw [hf, Option.some.injEq] at hg
      rw [← hg]
      omega

lemma fileAt_size (files : List TokenizedFile) :
    (ofFiles files).fileAt (ofFiles files).keys.size = files.length := by
  refine partitionPoint_eq (Nat.zero_le _) (by simp) (fun l _ hl => ?_) fun l hl hn => ?_
  · have hg := List.getElem?_eq_getElem hl
    have := startOf_add_lt hg hl
    rw [getElem?_files, hg, size_keys]
    simp only [Option.map_some, placed, Option.any_some, decide_eq_true_eq]
    omega
  · rw [size_files] at hn
    omega

lemma tokenAt?_place (hf : files[k]? = some f) (hi : i ≤ f.tokens.length) :
    (ofFiles files).tokenAt? (startOf files k + i) = f.tokens[i]? := by
  simp only [tokenAt?, fileAt_place hf hi, getElem?_files, hf, Option.map_some, placed]
  rcases Nat.lt_or_eq_of_le hi with hlt | rfl
  · rw [if_neg (by omega), getElem?_tokens hf hlt]
  · rw [if_pos (Nat.le_refl _), List.getElem?_eq_none (Nat.le_refl _)]

lemma tokenAt?_size (files : List TokenizedFile) :
    (ofFiles files).tokenAt? (ofFiles files).keys.size = none := by
  simp only [tokenAt?, fileAt_size, getElem?_files, List.getElem?_eq_none (Nat.le_refl _), Option.map_none]

lemma distinctKeys_ofFiles (files : List TokenizedFile) :
    (ofFiles files).distinctKeys = (numberingOf files).next :=
  rfl

lemma isSentinel_place (hf : files[k]? = some f) (hi : i ≤ f.tokens.length) :
    (ofFiles files).isSentinel (startOf files k + i) = true ↔ i = f.tokens.length := by
  rcases Nat.lt_or_eq_of_le hi with hlt | rfl
  · have ht := List.getElem?_eq_getElem hlt
    have hn := (lists_numberingOf files).numberOf_lt (mem_keys hf ht)
    rw [isSentinel, key_of_token hf ht, Option.any_some, distinctKeys_ofFiles, decide_eq_true_eq]
    exact iff_of_false hn.not_ge hlt.ne
  · rw [isSentinel, sentinel hf, Option.any_some, distinctKeys_ofFiles, decide_eq_true_eq]
    exact iff_of_true (Nat.le_add_right _ _) rfl

lemma tokenAt?_eq_none_iff (hp : p ≤ (ofFiles files).keys.size) :
    (ofFiles files).tokenAt? p = none ↔
      p = (ofFiles files).keys.size ∨ (ofFiles files).isSentinel p = true := by
  rcases Nat.lt_or_eq_of_le hp with hlt | rfl
  · obtain ⟨k, f, i, hf, hi, rfl⟩ := exists_place_of_lt hlt
    rw [tokenAt?_place hf hi, isSentinel_place hf hi, List.getElem?_eq_none_iff, or_iff_right hlt.ne]
    omega
  · exact iff_of_true (tokenAt?_size files) (Or.inl rfl)

lemma getElem?_keys_eq_iff {q : ℕ} (hp : p < (ofFiles files).keys.size) (hq : q < (ofFiles files).keys.size) :
    (ofFiles files).keys[p]? = (ofFiles files).keys[q]? ↔
      p = q ∨ (ofFiles files).isSentinel p = false ∧ (ofFiles files).isSentinel q = false ∧
        ((ofFiles files).tokenAt? p).map (·.key) = ((ofFiles files).tokenAt? q).map (·.key) := by
  obtain ⟨k, f, i, hf, hi, rfl⟩ := exists_place_of_lt hp
  obtain ⟨l, g, j, hg, hj, rfl⟩ := exists_place_of_lt hq
  rw [tokenAt?_place hf hi, tokenAt?_place hg hj, Bool.eq_false_iff, Bool.eq_false_iff, ne_eq, ne_eq,
    isSentinel_place hf hi, isSentinel_place hg hj]
  rcases Nat.lt_or_eq_of_le hi with hi | rfl
  · rcases Nat.lt_or_eq_of_le hj with hj | rfl
    · rw [keys_eq_iff hf hg hi hj]
      refine ⟨fun h => Or.inr ⟨hi.ne, hj.ne, h⟩, fun h => ?_⟩
      rcases h with h | h
      · obtain ⟨rfl, rfl⟩ := place_unique hf hg hi.le hj.le h
        rw [hf, Option.some.injEq] at hg
        rw [hg]
      · exact h.2.2
    · refine ⟨fun h => Or.inl (sentinel_unique hg h), fun h => ?_⟩
      rcases h with h | h
      · rw [h]
      · exact absurd rfl h.2.1
  · refine ⟨fun h => Or.inl (sentinel_unique hf h.symm).symm, fun h => ?_⟩
    rcases h with h | h
    · rw [h]
    · exact absurd rfl h.1

lemma exists_getElem?_keys (hn : n < (ofFiles files).distinctKeys) :
    ∃ p, (ofFiles files).isSentinel p = false ∧ (ofFiles files).keys[p]? = some n := by
  have hl := lists_numberingOf files
  rw [distinctKeys_ofFiles, hl.next] at hn
  have hk := List.getElem?_eq_getElem hn
  obtain ⟨t, ht, hkey⟩ := List.mem_map.mp (List.mem_eraseDups.mp (List.mem_of_getElem? hk))
  obtain ⟨f, hf, ht⟩ := List.mem_flatMap.mp ht
  obtain ⟨k, hf⟩ := List.getElem?_of_mem hf
  obtain ⟨i, ht⟩ := List.getElem?_of_mem ht
  have hi := (List.getElem?_eq_some_iff.mp ht).1
  refine ⟨startOf files k + i, ?_, ?_⟩
  · rw [Bool.eq_false_iff, ne_eq, isSentinel_place hf hi.le]
    exact hi.ne
  · rw [key_of_token hf ht, hkey, Numbering.numberOf, (hl.number?_eq_some_iff _ n).mpr hk,
      Option.getD_some]

lemma exists_getElem?_keys_before (hp : (ofFiles files).isSentinel p = false)
    (hn : (ofFiles files).keys[p]? = some n) (hm : m < n) :
    ∃ q < p, (ofFiles files).keys[q]? = some m := by
  obtain ⟨k, f, i, hf, hi, rfl⟩ := exists_place_of_lt (Array.getElem?_eq_some_iff.mp hn).1
  rw [Bool.eq_false_iff, ne_eq, isSentinel_place hf hi] at hp
  have hlt := lt_of_le_of_ne hi hp
  have hl := lists_numberingOf files
  have ht := List.getElem?_eq_getElem hlt
  rw [key_of_token hf ht, Option.some.injEq] at hn
  have hknown := hl.number?_eq_some_numberOf (mem_keys hf ht)
  rw [hn] at hknown
  have hsplit : (files.flatMap (·.tokens)).map (·.key) =
      ((files.take k).flatMap (·.tokens) ++ f.tokens.take i).map (·.key) ++ f.tokens[i].key ::
        (f.tokens.drop (i + 1) ++ (files.drop (k + 1)).flatMap (·.tokens)).map (·.key) := by
    obtain ⟨hk, rfl⟩ := List.getElem?_eq_some_iff.mp hf
    rw [← List.map_cons, ← List.map_append, List.append_assoc, ← List.cons_append,
      ← List.append_assoc _ _ (List.flatMap _ _), ← List.drop_eq_getElem_cons hlt, List.take_append_drop]
    conv_lhs => rw [← List.take_append_drop k files, List.drop_eq_getElem_cons hk]
    rw [List.flatMap_append, List.flatMap_cons]
  rw [hsplit] at hl
  obtain ⟨a, ha, hnum⟩ := hl.exists_before hknown hm
  obtain ⟨t, ht, rfl⟩ := List.mem_map.mp ha
  have hat : ∀ {l j g}, files[l]? = some g → g.tokens[j]? = some t →
      (ofFiles files).keys[startOf files l + j]? = some m := by
    intro l j g hg hj
    rw [key_of_token hg hj, Numbering.numberOf, hnum, Option.getD_some]
  rcases List.mem_append.mp ht with ht | ht
  · obtain ⟨g, hg, ht⟩ := List.mem_flatMap.mp ht
    obtain ⟨l, hg⟩ := List.getElem?_of_mem hg
    obtain ⟨j, hj⟩ := List.getElem?_of_mem ht
    have hlk : l < k := by
      have := (List.getElem?_eq_some_iff.mp hg).1
      rw [List.length_take] at this
      omega
    rw [List.getElem?_take_of_lt hlk] at hg
    have := startOf_add_lt hg hlk
    have := (List.getElem?_eq_some_iff.mp hj).1
    exact ⟨startOf files l + j, by omega, hat hg hj⟩
  · obtain ⟨j, hj⟩ := List.getElem?_of_mem ht
    have hji : j < i := by
      have := (List.getElem?_eq_some_iff.mp hj).1
      rw [List.length_take] at this
      omega
    rw [List.getElem?_take_of_lt hji] at hj
    exact ⟨startOf files k + j, by omega, hat hf hj⟩

end CodeClones.Corpus
