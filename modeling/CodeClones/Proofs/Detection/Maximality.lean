import Mathlib
import CodeClones.Proofs.Detection.Reported

/-! No duplication that is reported can be made longer, and none only tells a part of a longer one. -/

namespace CodeClones

open Corpus Duplication Success

namespace Occurrence

variable (r : Registry) (o : Options) (files : List SourceFile)

def keyBefore? (x : Occurrence) : Option Key :=
  match x.startToken with
  | 0 => none
  | i + 1 => ((tokensOf? r o files x.file).bind (·[i]?)).map (·.key)

def keyBehind? (length : ℕ) (x : Occurrence) : Option Key :=
  ((tokensOf? r o files x.file).bind (·[x.startToken + length]?)).map (·.key)

/-- Different tokens stand in front of two occurrences and behind them. An edge of a file is like no token. -/
structure Diverges (length : ℕ) (x y : Occurrence) : Prop where
  before : ∀ key, x.keyBefore? r o files = some key → y.keyBefore? r o files ≠ some key
  behind : ∀ key, x.keyBehind? r o files length = some key → y.keyBehind? r o files length ≠ some key

end Occurrence

/-- Each occurrence of a duplication is part of one of a longer duplication, `offset` tokens behind its
start. -/
def Duplication.IsPartOf (offset : ℕ) (dup longer : Duplication) : Prop :=
  offset + dup.tokens ≤ longer.tokens ∧ ∀ x ∈ dup.occurrences, ∃ y ∈ longer.occurrences,
    x.file = y.file ∧ x.startToken = y.startToken + offset

/-- Two occurrences differ in front and behind. So no token can be added at either side of all occurrences,
and the duplication is no part of a longer one among those reported. -/
structure Duplication.IsMaximal (r : Registry) (o : Options) (files : List SourceFile)
    (reported : List Duplication) (dup : Duplication) : Prop where
  diverging : ∃ x ∈ dup.occurrences, ∃ y ∈ dup.occurrences, x ≠ y ∧ x.Diverges r o files dup.tokens y
  before : ¬ ∃ key, ∀ x ∈ dup.occurrences, x.keyBefore? r o files = some key
  behind : ¬ ∃ key, ∀ x ∈ dup.occurrences, x.keyBehind? r o files dup.tokens = some key
  whole : ∀ longer ∈ reported, dup.tokens < longer.tokens → ¬ ∃ offset, dup.IsPartOf offset longer

namespace Detector

variable {d : Detector} {files : List SourceFile} {o : Options} {result : Detection} {dup longer : Duplication}
  {r : Registry} {f g : TokenizedFile} {x y : Occurrence} {length offset k l i j p q : ℕ} {key : Key}

lemma tokensOf?_of_tells (h : LiesIn (gathered r o files) length p k i f) (ht : Tells f length i x) :
    tokensOf? r o files x.file = some f.tokens := by
  obtain ⟨-, -, -, htokens⟩ := tokensOf?_of_mem (List.mem_of_getElem? h.file)
  rw [ht.file, htokens]

lemma before?_eq_of_keyBefore? (hf : LiesIn (gathered r o files) length p k i f) (hx : Tells f length i x)
    (hg : LiesIn (gathered r o files) length q l j g) (hy : Tells g length j y)
    (hkx : x.keyBefore? r o files = some key) (hky : y.keyBefore? r o files = some key) :
    before? (ofFiles (gathered r o files)).keys p = before? (ofFiles (gathered r o files)).keys q := by
  rw [Occurrence.keyBefore?, tokensOf?_of_tells hf hx, hx.startToken] at hkx
  rw [Occurrence.keyBefore?, tokensOf?_of_tells hg hy, hy.startToken] at hky
  cases i with
  | zero => exact absurd hkx (by simp)
  | succ i =>
    cases j with
    | zero => exact absurd hky (by simp)
    | succ j =>
      have hi := hf.room
      have hj := hg.room
      rw [hf.position, hg.position]
      exact (keys_eq_iff hf.file hg.file (by omega) (by omega)).mpr (hkx.trans hky.symm)

lemma behind?_eq_of_keyBehind? (hf : LiesIn (gathered r o files) length p k i f) (hx : Tells f length i x)
    (hg : LiesIn (gathered r o files) length q l j g) (hy : Tells g length j y)
    (hkx : x.keyBehind? r o files length = some key) (hky : y.keyBehind? r o files length = some key) :
    behind? (ofFiles (gathered r o files)).keys length p = behind? (ofFiles (gathered r o files)).keys length q := by
  rw [Occurrence.keyBehind?, tokensOf?_of_tells hf hx, hx.startToken, Option.bind_some] at hkx
  rw [Occurrence.keyBehind?, tokensOf?_of_tells hg hy, hy.startToken, Option.bind_some] at hky
  obtain ⟨t, ht, -⟩ := Option.map_eq_some_iff.mp hkx
  obtain ⟨u, hu, -⟩ := Option.map_eq_some_iff.mp hky
  have hi := (List.getElem?_eq_some_iff.mp ht).1
  have hj := (List.getElem?_eq_some_iff.mp hu).1
  rw [behind?, behind?, hf.position, hg.position, Nat.add_assoc, Nat.add_assoc]
  exact (keys_eq_iff hf.file hg.file hi hj).mpr (hkx.trans hky.symm)

lemma position_eq_add {length' p' : ℕ} (hf : LiesIn (gathered r o files) length p k i f)
    (hx : Tells f length i x) (hg : LiesIn (gathered r o files) length' p' l j g) (hy : Tells g length' j y)
    (hfile : x.file = y.file) (hstart : x.startToken = y.startToken + offset) : p = p' + offset := by
  rw [hx.file, hy.file] at hfile
  obtain rfl := index_unique (pairwise_inputIndex r o files) hf.file hg.file hfile
  rw [hx.startToken, hy.startToken] at hstart
  rw [hf.position, hg.position]
  omega

lemma agree_of_isMaximal {keys : Array ℕ} {r : Repeat} (h : r.IsMaximal keys) (hpos : 0 < r.length)
    (hp : p ∈ r.positions) (hq : q ∈ r.positions) : SuffixIndex.Agree keys r.length p q :=
  (((Repeat.occurs_iff hpos hp).mp h.occurs q).mp hq).2

lemma before?_eq_or_behind?_eq {keys : Array ℕ} {long : ℕ} (h : SuffixIndex.Agree keys long p q)
    (hin : offset + length ≤ long) (hlt : length < long) :
    before? keys (p + offset) = before? keys (q + offset) ∨
      behind? keys length (p + offset) = behind? keys length (q + offset) := by
  rcases Nat.eq_zero_or_pos offset with rfl | hpos
  · exact Or.inr (h length hlt)
  · left
    rw [before?_of_pos keys (by omega), before?_of_pos keys (by omega), Nat.add_sub_assoc hpos,
      Nat.add_sub_assoc hpos]
    exact h (offset - 1) (by omega)

lemma not_isPartOf (h : d.detect files o = .ok result) (hl : longer ∈ result.duplications)
    (hlt : dup.tokens < longer.tokens) (hx : x ∈ dup.occurrences) (hy : y ∈ dup.occurrences)
    (hf : LiesIn (gathered d.registry o files) dup.tokens p k i f) (htx : Tells f dup.tokens i x)
    (hg : LiesIn (gathered d.registry o files) dup.tokens q l j g) (hty : Tells g dup.tokens j y)
    (hbefore : before? (corpusOf d files o).keys p ≠ before? (corpusOf d files o).keys q)
    (hbehind : behind? (corpusOf d files o).keys dup.tokens p ≠ behind? (corpusOf d files o).keys dup.tokens q) :
    ¬ dup.IsPartOf offset longer := by
  rintro ⟨hin, hpart⟩
  obtain ⟨r, pair, -, hpos, hmax, -, hof⟩ := exists_repeat h hl
  obtain ⟨x', hx', hfile, hstart⟩ := hpart x hx
  obtain ⟨y', hy', hfile', hstart'⟩ := hpart y hy
  obtain ⟨p', hp, k', i', f', hf', htx'⟩ := hof.exists_position hx'
  obtain ⟨q', hq, l', j', g', hg', hty'⟩ := hof.exists_position hy'
  obtain rfl := position_eq_add hf htx hf' htx' hfile hstart
  obtain rfl := position_eq_add hg hty hg' hty' hfile' hstart'
  have hagree := agree_of_isMaximal hmax hpos (mem_of_mem_chainThrough hp) (mem_of_mem_chainThrough hq)
  rw [← hof.tokens] at hagree
  rcases before?_eq_or_behind?_eq hagree hin hlt with he | he
  · exact hbefore he
  · exact hbehind he

theorem detect_maximal (h : d.detect files o = .ok result) :
    ∀ dup ∈ result.duplications, dup.IsMaximal d.registry o files result.duplications := by
  intro dup hd
  obtain ⟨r, pair, -, -, hmax, hp, hof⟩ := exists_repeat h hd
  obtain ⟨ha, hb, hle, hbefore, hbehind⟩ := mem_maximalPairs.mp hp
  rw [← hof.tokens] at hbehind hle
  have hne : pair.1 ≠ pair.2 := fun he => hbefore (by rw [he])
  have hheld := ends_mem_chainThrough hp hmax.sorted
  obtain ⟨x, hx, k, i, f, hf, htx⟩ := hof.exists_occurrence hheld.1
  obtain ⟨y, hy, l, j, g, hg, hty⟩ := hof.exists_occurrence hheld.2
  rw [← hof.tokens] at hf htx hg hty
  have hxy : x.Diverges d.registry o files dup.tokens y :=
    ⟨fun key hkx hky => hbefore (before?_eq_of_keyBefore? hf htx hg hty hkx hky),
      fun key hkx hky => hbehind (behind?_eq_of_keyBehind? hf htx hg hty hkx hky)⟩
  refine ⟨⟨x, hx, y, hy, ?_, hxy⟩, ?_, ?_, ?_⟩
  · rintro rfl
    exact hne (position_eq_add hf htx hg hty rfl (Nat.add_zero _).symm)
  · rintro ⟨key, hkey⟩
    exact hxy.before key (hkey x hx) (hkey y hy)
  · rintro ⟨key, hkey⟩
    exact hxy.behind key (hkey x hx) (hkey y hy)
  · rintro longer hlonger hlt ⟨offset, hpart⟩
    exact not_isPartOf h hlonger hlt hx hy hf htx hg hty hbefore hbehind hpart

theorem detect_maximal_words : ∃ result,
    detect { registry := .register .empty (.words "words" []) [] } [⟨"a", "x y z x y y x y z", none⟩]
      { minimumTokens := 2, language := "words" } = .ok result ∧
    result.duplications.map (·.tokens) = [3, 2] ∧
    ∀ dup ∈ result.duplications, dup.IsMaximal (.register .empty (.words "words" []) [])
      { minimumTokens := 2, language := "words" } [⟨"a", "x y z x y y x y z", none⟩] result.duplications :=
  ⟨_, by cbv, rfl, detect_maximal (d := { registry := .register .empty (.words "words" []) [] }) (by cbv)⟩

end Detector

end CodeClones
