import Mathlib
import CodeClones.Proofs.Corpus.Edges
import CodeClones.Proofs.Detection.Reported
import CodeClones.Proofs.Extension

/-! No duplication is missed: equal runs are reported once they are made as long as they can be, unless they
then overlap. -/

namespace CodeClones.Detector

open Corpus Duplication

variable {d : Detector} {files : List SourceFile} {o : Options} {result : Detection} {dup : Duplication}
  {given : List TokenizedFile} {chain : List ℕ} {f g : TokenizedFile} {k l i j length p q : ℕ} {s t : List Token}

lemma exists_maximalPair (hf : LiesIn given length p k i f) (hg : LiesIn given length q l j g)
    (hpos : 0 < length) (hle : p + length ≤ q)
    (h : IsExtended (f.tokens.map (·.key)) (g.tokens.map (·.key)) i j length) :
    ∃ r : Repeat, r.length = length ∧ r.IsMaximal (ofFiles given).keys ∧
      (p, q) ∈ maximalPairs (ofFiles given).keys r.positions length := by
  have hi := hf.room
  have hj := hg.room
  obtain rfl := hf.position
  obtain rfl := hg.position
  have hbefore : before? (ofFiles given).keys (startOf given k + i) ≠
      before? (ofFiles given).keys (startOf given l + j) :=
    before?_ne hf.file hg.file (by omega) (by omega) (by omega) (by simpa using h.before)
  have hbehind : (ofFiles given).keys[startOf given k + i + length]? ≠
      (ofFiles given).keys[startOf given l + j + length]? := by
    rw [Nat.add_assoc, Nat.add_assoc]
    exact key_ne hf.file hg.file hi hj (by omega) (by simpa using h.behind)
  have hagree := (agree_iff hf.file hg.file hi hj).mpr (by simpa using h.agree)
  have hsf := add_lt_size hf.file hi
  have hsg := add_lt_size hg.file hj
  obtain ⟨r, hl, hr, hp, hq⟩ := Repeat.exists_isMaximal hpos (by omega) (by omega) (by omega) hagree (by
    rintro ⟨key, ⟨hp, hkp⟩, hq, hkq⟩
    exact hbefore (by rw [before?_of_pos _ hp, before?_of_pos _ hq, hkp, hkq])) hbehind
  exact ⟨r, hl, hr, mem_maximalPairs.mpr ⟨hp, hq, hle, hbefore, hbehind⟩⟩

lemma exists_occurrence (h : OfChain given length chain dup) (hf : LiesIn given length p k i f) (hp : p ∈ chain) :
    ∃ x ∈ dup.occurrences, x.file = f.inputIndex ∧ x.startToken = i := by
  obtain ⟨x, hx, l, j, g, hg, htells⟩ := h.exists_occurrence hp
  obtain ⟨rfl, rfl, rfl⟩ := hf.unique hg
  exact ⟨x, hx, htells.file, htells.startToken⟩

lemma exists_duplication_of_isExtended (h : d.detect files o = .ok result)
    (hf : LiesIn (gathered d.registry o files) length p k i f)
    (hg : LiesIn (gathered d.registry o files) length q l j g) (hl : o.minimumTokens ≤ length)
    (hle : p + length ≤ q) (he : IsExtended (f.tokens.map (·.key)) (g.tokens.map (·.key)) i j length) :
    ∃ dup ∈ result.duplications, dup.tokens = length ∧
      (∃ x ∈ dup.occurrences, x.file = f.inputIndex ∧ x.startToken = i) ∧
      ∃ x ∈ dup.occurrences, x.file = g.inputIndex ∧ x.startToken = j := by
  have hpos : 0 < length := (detect_eq_ok h).1.trans_le hl
  obtain ⟨r, rfl, hr, hpair⟩ := exists_maximalPair hf hg hpos hle he
  obtain ⟨dup, hd, chain, hholds, hof⟩ := exists_duplication h hl hr hpair
  rw [holds, Bool.and_eq_true, List.contains_iff_mem, List.contains_iff_mem] at hholds
  exact ⟨dup, hd, hof.tokens, exists_occurrence hof hf hholds.1, exists_occurrence hof hg hholds.2⟩

/-- Equal runs that are long enough are reported, each pair of them by one duplication as long as they can be
made, unless they then overlap. -/
theorem detect_complete {a b i' j' least : ℕ} (h : d.detect files o = .ok result)
    (hs : tokensOf? d.registry o files a = some s) (ht : tokensOf? d.registry o files b = some t)
    (hleast : o.minimumTokens ≤ least) (hi : i + least ≤ s.length) (hj : j + least ≤ t.length)
    (hagree : ∀ n < least, s[i + n]?.map (·.key) = t[j + n]?.map (·.key))
    (hext : extension (s.map (·.key)) (t.map (·.key)) i j = (i', j', length))
    (hapart : a ≠ b ∨ i' + length ≤ j' ∨ j' + length ≤ i') :
    ∃ dup ∈ result.duplications, dup.tokens = length ∧
      (∃ x ∈ dup.occurrences, x.file = a ∧ x.startToken = i') ∧
      ∃ y ∈ dup.occurrences, y.file = b ∧ y.startToken = j' := by
  obtain ⟨f, hf, rfl, rfl⟩ := exists_mem_of_tokensOf? hs
  obtain ⟨g, hg, rfl, rfl⟩ := exists_mem_of_tokensOf? ht
  obtain ⟨k, hk⟩ := List.mem_iff_getElem?.mp hf
  obtain ⟨l, hl⟩ := List.mem_iff_getElem?.mp hg
  have hex := isExtended_extension (s := f.tokens.map (·.key)) (t := g.tokens.map (·.key)) (i := i) (j := j)
    (by simp; omega) (by simp; omega)
  have hlong : least ≤ length := by
    have := le_extension (s := f.tokens.map (·.key)) (t := g.tokens.map (·.key)) (i := i) (j := j) (m := least)
      (by simpa using hi) (by simpa using hj) (by simpa using hagree)
    rwa [hext] at this
  rw [hext] at hex
  have hlf : LiesIn (gathered d.registry o files) length _ k i' f := ⟨hk, rfl, by simpa using hex.room⟩
  have hlg : LiesIn (gathered d.registry o files) length _ l j' g := ⟨hl, rfl, by simpa using hex.room'⟩
  have hkl : k ≠ l ∨ i' + length ≤ j' ∨ j' + length ≤ i' := by
    refine hapart.imp_left fun hne he => hne ?_
    rw [he, hl, Option.some.injEq] at hk
    rw [hk]
  rcases hlf.apart hlg hkl with hle | hle
  · exact exists_duplication_of_isExtended h hlf hlg (hleast.trans hlong) hle hex
  · obtain ⟨dup, hd, htokens, hx, hy⟩ :=
      exists_duplication_of_isExtended h hlg hlf (hleast.trans hlong) hle hex.symm
    exact ⟨dup, hd, htokens, hy, hx⟩

theorem detect_complete_words : ∃ result,
    detect { registry := .register .empty (.words "words" []) [] } [⟨"a", "p x y q x y", none⟩]
      { minimumTokens := 1, language := "words" } = .ok result ∧
    ∃ dup ∈ result.duplications, dup.tokens = 2 ∧
      (∃ x ∈ dup.occurrences, x.file = 0 ∧ x.startToken = 1) ∧
      ∃ y ∈ dup.occurrences, y.file = 0 ∧ y.startToken = 4 := by
  have hs : tokensOf? (.register .empty (.words "words" []) []) { minimumTokens := 1, language := "words" }
      [⟨"a", "p x y q x y", none⟩] 0 =
      some (["p", "x", "y", "q", "x", "y"].map fun word => ⟨.identifier, some word, 0, ⟨1, 1⟩, ⟨1, 1⟩⟩) := by
    cbv
  exact ⟨_, by cbv, detect_complete (d := { registry := .register .empty (.words "words" []) [] }) (i := 2)
    (j := 5) (by cbv) hs hs (Nat.le_refl 1) (by decide) (by decide) (by decide) (by cbv) (by decide)⟩

end CodeClones.Detector
