import CodeClones.Proofs.Corpus.Positions
import CodeClones.Proofs.Duplication.Resolve
import CodeClones.Proofs.Repeat.Maximal

/-! Each run of a maximal repeat is in a file, so that a place can be given for it. -/

namespace CodeClones.Corpus

open Duplication SuffixIndex

variable {given : List TokenizedFile} {f : TokenizedFile} {r : Repeat} {length k i p q : ℕ}

lemma LiesIn.lt_size (h : LiesIn given length p k i f) : p + length < (ofFiles given).keys.size := by
  have := add_lt_size h.file h.room
  rw [h.position]
  omega

lemma exists_liesIn_of_agree (hne : p ≠ q) (hp : p + length ≤ (ofFiles given).keys.size)
    (hpos : 0 < length) (h : Agree (ofFiles given).keys length p q) :
    ∃ k i f, LiesIn given length p k i f := by
  obtain ⟨k, f, i, hf, hi, rfl⟩ := exists_place_of_lt (by omega : p < (ofFiles given).keys.size)
  refine ⟨k, i, f, hf, rfl, ?_⟩
  by_contra hroom
  have he := h (f.tokens.length - i) (by omega)
  rw [show startOf given k + i + (f.tokens.length - i) = startOf given k + f.tokens.length by omega] at he
  have := sentinel_unique hf he.symm
  omega

lemma exists_liesIn (h : r.IsMaximal (ofFiles given).keys) (hpos : 0 < r.length) (hp : p ∈ r.positions) :
    ∃ k i f, LiesIn given r.length p k i f := by
  obtain ⟨q, hq, hne⟩ := h.exists_ne p
  obtain ⟨hroom, hself⟩ := ((Repeat.occurs_iff hpos hq).mp h.occurs p).mp hp
  exact exists_liesIn_of_agree hne hroom hpos hself.symm

lemma LiesIn.fileOfRun_eq (h : LiesIn given length p k i f) (hpos : 0 < length) :
    fileOfRun (ofFiles given) length p = .ok (k, placed given k f) := by
  have hroom := h.room
  obtain rfl := h.position
  simp only [fileOfRun, fileAt_place h.file (by omega : i ≤ f.tokens.length), getElem?_files, h.file, Option.map_some]
  rw [if_neg (by simp only [placed]; omega)]

end CodeClones.Corpus
