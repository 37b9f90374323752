import CodeClones.Proofs.Corpus.Edges
import CodeClones.Proofs.Duplication.Placement
import CodeClones.Proofs.Reordering.Texts

/-! The positions of a corpus as places in texts whose numbers have nothing to do with the order of files. -/

namespace CodeClones

open Corpus Duplication SuffixIndex

variable {given : List TokenizedFile} {number : ℕ → ℕ} {texts : Texts} {f g : TokenizedFile}
  {k l i j p q length : ℕ} {run : List Key} {r : Repeat} {x y z : ℕ × ℕ}

namespace Corpus

def placeAt (given : List TokenizedFile) (number : ℕ → ℕ) (p : ℕ) : ℕ × ℕ :=
  let k := (ofFiles given).fileAt p
  (given[k]?.elim 0 fun f => number f.inputIndex, p - startOf given k)

lemma LiesIn.placeAt_eq (h : LiesIn given length p k i f) (number : ℕ → ℕ) :
    placeAt given number p = (number f.inputIndex, i) := by
  have hroom := h.room
  simp only [placeAt, h.position, fileAt_place h.file (by omega : i ≤ f.tokens.length), h.file, Option.elim_some,
    Nat.add_sub_cancel_left]

end Corpus

namespace Texts

/-- The files of a corpus are the texts, under the numbers that `number` gives them. -/
structure Numbers (texts : Texts) (number : ℕ → ℕ) (given : List TokenizedFile) : Prop where
  unique : ∀ {k l : ℕ} {f g : TokenizedFile}, given[k]? = some f → given[l]? = some g →
    number f.inputIndex = number g.inputIndex → k = l
  text_iff : ∀ {text keys}, texts text = some keys ↔
    ∃ f ∈ given, number f.inputIndex = text ∧ f.tokens.map (·.key) = keys

namespace Numbers

lemma text (h : texts.Numbers number given) (hf : given[k]? = some f) :
    texts (number f.inputIndex) = some (f.tokens.map (·.key)) :=
  h.text_iff.mpr ⟨f, List.mem_of_getElem? hf, rfl, rfl⟩

lemma placeAt_inj (h : texts.Numbers number given) {length' : ℕ} (hp : LiesIn given length p k i f)
    (hq : LiesIn given length' q l j g) (he : placeAt given number p = placeAt given number q) : p = q := by
  rw [hp.placeAt_eq, hq.placeAt_eq] at he
  obtain ⟨hn, rfl⟩ := Prod.mk.inj he
  obtain rfl := h.unique hp.file hq.file hn
  rw [hp.position, hq.position]

lemma lt_imp_add_le_iff (h : texts.Numbers number given) (hp : LiesIn given length p k i f)
    (hq : LiesIn given length q l j g) :
    (p < q → p + length ≤ q) ↔ ((placeAt given number p).1 = (placeAt given number q).1 →
      (placeAt given number p).2 < (placeAt given number q).2 →
        (placeAt given number p).2 + length ≤ (placeAt given number q).2) := by
  rw [hp.placeAt_eq, hq.placeAt_eq]
  dsimp only
  have hpp := hp.position
  have hqp := hq.position
  constructor
  · intro hle hn hlt
    obtain rfl := h.unique hp.file hq.file hn
    omega
  · intro hle hlt
    by_cases hkl : k = l
    · subst hkl
      have hfg := hp.file.symm.trans hq.file
      rw [Option.some.injEq] at hfg
      have := hle (by rw [hfg]) (by omega)
      omega
    · rcases hp.apart hq (Or.inl hkl) with hle | hle
      · exact hle
      · omega

lemma add_le_iff (h : texts.Numbers number given) (hp : LiesIn given length p k i f)
    (hq : LiesIn given length q l j g) (hlt : p < q) :
    p + length ≤ q ↔ Apart length (placeAt given number p) (placeAt given number q) := by
  rw [hp.placeAt_eq, hq.placeAt_eq]
  have hpp := hp.position
  have hqp := hq.position
  constructor
  · intro hle hn
    obtain rfl := h.unique hp.file hq.file hn
    dsimp only
    omega
  · intro hapart
    have hkl : k ≠ l ∨ i + length ≤ j ∨ j + length ≤ i := by
      by_cases hkl : k = l
      · subst hkl
        have hfg := hp.file.symm.trans hq.file
        rw [Option.some.injEq] at hfg
        exact Or.inr (hapart (by rw [hfg]))
      · exact Or.inl hkl
    rcases hp.apart hq hkl with hle | hle
    · exact hle
    · omega

/-! ### Before and behind -/

lemma before?_eq_iff (h : texts.Numbers number given) (hp : LiesIn given length p k i f)
    (hq : LiesIn given length q l j g) (hne : p ≠ q) :
    Duplication.before? (ofFiles given).keys p = Duplication.before? (ofFiles given).keys q ↔
      ∃ key, texts.before? (placeAt given number p) = some key ∧ texts.before? (placeAt given number q) = some key := by
  have hi := hp.room
  have hj := hq.room
  simp only [hp.placeAt_eq, hq.placeAt_eq, before?, h.text hp.file, h.text hq.file, Option.bind_some]
  obtain rfl := hp.position
  obtain rfl := hq.position
  constructor
  · intro he
    by_contra hno
    refine before?_ne hp.file hq.file (by omega) (by omega) hne (fun hi0 hj0 hkey => hno ?_) he
    obtain ⟨i, rfl⟩ := Nat.exists_eq_succ_of_ne_zero hi0.ne'
    obtain ⟨j, rfl⟩ := Nat.exists_eq_succ_of_ne_zero hj0.ne'
    obtain ⟨t, ht⟩ : ∃ t, f.tokens[i]? = some t := ⟨_, List.getElem?_eq_getElem (by omega)⟩
    refine ⟨t.key, ?_, ?_⟩
    · simp only [List.getElem?_map, ht, Option.map_some]
    · simpa [ht] using hkey.symm
  · rintro ⟨key, hkp, hkq⟩
    cases i with
    | zero => exact absurd hkp (by simp)
    | succ i =>
      cases j with
      | zero => exact absurd hkq (by simp)
      | succ j =>
        simp only [List.getElem?_map] at hkp hkq
        exact (keys_eq_iff hp.file hq.file (by omega) (by omega)).mpr (hkp.trans hkq.symm)

lemma behind?_eq_iff (h : texts.Numbers number given) (hp : LiesIn given length p k i f)
    (hq : LiesIn given length q l j g) (hne : p ≠ q) :
    Duplication.behind? (ofFiles given).keys length p = Duplication.behind? (ofFiles given).keys length q ↔
      ∃ key, texts.behind? length (placeAt given number p) = some key ∧
        texts.behind? length (placeAt given number q) = some key := by
  simp only [hp.placeAt_eq, hq.placeAt_eq, behind?, Duplication.behind?, h.text hp.file, h.text hq.file,
    Option.bind_some, List.getElem?_map]
  have hi := hp.room
  have hj := hq.room
  obtain rfl := hp.position
  obtain rfl := hq.position
  rw [Nat.add_assoc, Nat.add_assoc]
  constructor
  · intro he
    by_contra hno
    refine key_ne hp.file hq.file hi hj (by omega) (fun hi hj hkey => hno ?_) he
    obtain ⟨t, ht⟩ : ∃ t, f.tokens[i + length]? = some t := ⟨_, List.getElem?_eq_getElem hi⟩
    rw [ht] at hkey
    exact ⟨t.key, by rw [ht]; rfl, hkey.symm⟩
  · rintro ⟨key, hkp, hkq⟩
    obtain ⟨t, ht, -⟩ := Option.map_eq_some_iff.mp hkp
    obtain ⟨u, hu, -⟩ := Option.map_eq_some_iff.mp hkq
    have hi := (List.getElem?_eq_some_iff.mp ht).1
    have hj := (List.getElem?_eq_some_iff.mp hu).1
    exact (keys_eq_iff hp.file hq.file hi hj).mpr (hkp.trans hkq.symm)

lemma exists_liesIn (h : texts.Numbers number given) (hrun : run ≠ []) (hx : texts.Occurs run x) :
    ∃ p k i f, LiesIn given run.length p k i f ∧ placeAt given number p = x ∧
      run <+: (f.tokens.map (·.key)).drop i := by
  obtain ⟨text, i⟩ := x
  obtain ⟨keys, hk, hp⟩ := exists_of_occurs hx
  obtain ⟨f, hf, rfl, rfl⟩ := h.text_iff.mp hk
  obtain ⟨k, hf⟩ := List.mem_iff_getElem?.mp hf
  have hpos := List.length_pos_iff.mpr hrun
  have hle := hp.length_le
  rw [List.length_drop, List.length_map] at hle
  have hlies : LiesIn given run.length (startOf given k + i) k i f := ⟨hf, rfl, by omega⟩
  exact ⟨_, k, i, f, hlies, hlies.placeAt_eq number, hp⟩

lemma occurs_placeAt_iff (h : texts.Numbers number given) (hrun : run ≠ []) (hp : LiesIn given length p k i f) :
    texts.Occurs run (placeAt given number p) ↔ run <+: (f.tokens.map (·.key)).drop i := by
  rw [hp.placeAt_eq, occurs_iff (h.text hp.file) hrun]

end Numbers

/-! ### Runs and repeats -/

structure IsRepeatOf (texts : Texts) (number : ℕ → ℕ) (given : List TokenizedFile) (run : List Key) (r : Repeat) :
    Prop where
  length : r.length = run.length
  mem_iff : ∀ p, p ∈ r.positions ↔
    (∃ k i f, LiesIn given run.length p k i f) ∧ texts.Occurs run (placeAt given number p)

lemma prefix_drop_iff {s : List Key} (hrun : run ≠ []) :
    run <+: s.drop i ↔ i + run.length ≤ s.length ∧ ∀ n < run.length, s[i + n]? = run[n]? := by
  have hpos := List.length_pos_iff.mpr hrun
  rw [List.prefix_iff_getElem?]
  constructor
  · intro h
    have hlast := h (run.length - 1) (by omega)
    rw [List.getElem?_drop] at hlast
    have := (List.getElem?_eq_some_iff.mp hlast).1
    refine ⟨by omega, fun n hn => ?_⟩
    rw [← List.getElem?_drop, h n hn, List.getElem?_eq_getElem hn]
  · rintro ⟨-, h⟩ n hn
    rw [List.getElem?_drop, h n hn, List.getElem?_eq_getElem hn]

lemma agree_iff_starts (hp : LiesIn given run.length p k i f) (hq : LiesIn given run.length q l j g)
    (hrun : run ≠ []) (hg : run <+: (g.tokens.map (·.key)).drop j) :
    Agree (ofFiles given).keys run.length q p ↔ run <+: (f.tokens.map (·.key)).drop i := by
  have hroom := hp.room
  rw [hp.position, hq.position, agree_iff hq.file hp.file hq.room hp.room, prefix_drop_iff hrun,
    and_iff_right (by rwa [List.length_map])]
  refine forall₂_congr fun n hn => ?_
  rw [← ((prefix_drop_iff hrun).mp hg).2 n hn, List.getElem?_map, List.getElem?_map]
  exact eq_comm

variable (given) in
def runOf (r : Repeat) : List Key :=
  r.positions.head?.elim [] fun p =>
    (((ofFiles given).tokens.toList.drop (p - (ofFiles given).fileAt p)).take r.length).map (·.key)

lemma map_take_tokens (hp : LiesIn given length p k i f) :
    (((ofFiles given).tokens.toList.drop (p - (ofFiles given).fileAt p)).take length).map (·.key) =
      ((f.tokens.map (·.key)).drop i).take length := by
  have hroom := hp.room
  obtain rfl := hp.position
  have hk := (List.getElem?_eq_some_iff.mp hp.file).1
  have hle := le_startOf hk.le
  rw [fileAt_place hp.file (by omega)]
  refine List.ext_getElem? fun n => ?_
  rw [List.getElem?_map, List.getElem?_take, List.getElem?_take]
  split
  · next hn =>
    rw [List.getElem?_drop, List.getElem?_drop, List.getElem?_map, Array.getElem?_toList,
      ← getElem?_tokens hp.file (by omega : i + n < f.tokens.length)]
    rw [show startOf given k + i - k + n = startOf given k + (i + n) - k by omega]
  · rfl

lemma Numbers.isRepeatOf_runOf (h : texts.Numbers number given) (hr : r.IsMaximal (ofFiles given).keys)
    (hpos : 0 < r.length) : texts.IsRepeatOf number given (runOf given r) r := by
  obtain ⟨q, hhead⟩ : ∃ q, r.positions.head? = some q := by
    have hn : r.positions ≠ [] := List.ne_nil_of_length_pos (Nat.zero_lt_of_lt hr.several)
    exact ⟨_, List.head?_eq_some_head hn⟩
  have hq := List.mem_of_mem_head? hhead
  obtain ⟨l, j, g, hlies⟩ := Corpus.exists_liesIn hr hpos hq
  have hroom := hlies.room
  have hrun : runOf given r = ((g.tokens.map (·.key)).drop j).take r.length := by
    rw [runOf, hhead, Option.elim_some, map_take_tokens hlies]
  have hlen : r.length = (runOf given r).length := by
    rw [hrun, List.length_take, List.length_drop, List.length_map]
    omega
  have hne : runOf given r ≠ [] := List.ne_nil_of_length_pos (hlen ▸ hpos)
  have hg : runOf given r <+: (g.tokens.map (·.key)).drop j := hrun ▸ List.take_prefix _ _
  rw [hlen] at hlies
  refine ⟨hlen, fun p => ?_⟩
  have hocc := (Repeat.occurs_iff hpos hq).mp hr.occurs p
  constructor
  · intro hp
    obtain ⟨k, i, f, hf⟩ := Corpus.exists_liesIn hr hpos hp
    have hagree := (hocc.mp hp).2
    rw [hlen] at hf hagree
    exact ⟨⟨k, i, f, hf⟩, (h.occurs_placeAt_iff hne hf).mpr ((agree_iff_starts hf hlies hne hg).mp hagree)⟩
  · rintro ⟨⟨k, i, f, hf⟩, hrunp⟩
    have hagree := (agree_iff_starts hf hlies hne hg).mpr ((h.occurs_placeAt_iff hne hf).mp hrunp)
    rw [← hlen] at hf hagree
    exact hocc.mpr ⟨hf.lt_size.le, hagree⟩

lemma exists_isRepeatOf (texts : Texts) (number : ℕ → ℕ) (given : List TokenizedFile) (run : List Key) :
    ∃ r : Repeat, r.positions.Pairwise (· < ·) ∧ texts.IsRepeatOf number given run r := by
  classical
  refine ⟨⟨run.length, (List.range (ofFiles given).keys.size).filter fun p =>
    (∃ k i f, LiesIn given run.length p k i f) ∧ texts.Occurs run (placeAt given number p)⟩,
    List.pairwise_lt_range.sublist List.filter_sublist, rfl, fun p => ?_⟩
  rw [List.mem_filter, List.mem_range, decide_eq_true_eq, and_iff_right_iff_imp]
  rintro ⟨⟨k, i, f, hf⟩, -⟩
  have := hf.lt_size
  omega

namespace IsRepeatOf

lemma exists_mem (ht : texts.IsRepeatOf number given run r) (h : texts.Numbers number given) (hrun : run ≠ [])
    (hx : texts.Occurs run x) : ∃ p ∈ r.positions, placeAt given number p = x := by
  obtain ⟨p, k, i, f, hf, rfl, -⟩ := h.exists_liesIn hrun hx
  exact ⟨p, (ht.mem_iff p).mpr ⟨⟨k, i, f, hf⟩, hx⟩, rfl⟩

lemma ne_iff (ht : texts.IsRepeatOf number given run r) (h : texts.Numbers number given) (hp : p ∈ r.positions)
    (hq : q ∈ r.positions) : placeAt given number p ≠ placeAt given number q ↔ p ≠ q := by
  obtain ⟨⟨k, i, f, hf⟩, -⟩ := (ht.mem_iff p).mp hp
  obtain ⟨⟨l, j, g, hg⟩, -⟩ := (ht.mem_iff q).mp hq
  exact not_congr ⟨h.placeAt_inj hf hg, fun he => he ▸ rfl⟩

lemma ext {r' : Repeat} (ht : texts.IsRepeatOf number given run r) (ht' : texts.IsRepeatOf number given run r')
    (hs : r.positions.Pairwise (· < ·)) (hs' : r'.positions.Pairwise (· < ·)) : r = r' := by
  obtain ⟨length, positions⟩ := r
  obtain ⟨length', positions'⟩ := r'
  have hl : length = length' := ht.length.trans ht'.length.symm
  have hperm : positions.Perm positions' :=
    (List.perm_ext_iff_of_nodup (hs.imp Nat.ne_of_lt) (hs'.imp Nat.ne_of_lt)).mpr fun p =>
      (ht.mem_iff p).trans (ht'.mem_iff p).symm
  have hp : positions = positions' := hperm.eq_of_pairwise (fun p q _ _ hpq hqp => absurd hpq (by omega)) hs hs'
  rw [hl, hp]

lemma exists_common_iff (ht : texts.IsRepeatOf number given run r) (h : texts.Numbers number given) (hrun : run ≠ [])
    {u : ℕ → Option ℕ} {v : ℕ × ℕ → Option Key}
    (huv : ∀ p ∈ r.positions, ∀ q ∈ r.positions, p ≠ q →
      (u p = u q ↔ ∃ key, v (placeAt given number p) = some key ∧ v (placeAt given number q) = some key))
    (hu : ∀ p ∈ r.positions, ∀ key, v (placeAt given number p) = some key → ∃ n, u p = some n)
    (hseveral : ∃ p ∈ r.positions, ∃ q ∈ r.positions, p ≠ q) :
    (∃ n, ∀ p ∈ r.positions, u p = some n) ↔ ∃ key, ∀ x, texts.Occurs run x → v x = some key := by
  obtain ⟨p, hp, q, hq, hne⟩ := hseveral
  constructor
  · rintro ⟨n, hn⟩
    obtain ⟨key, hkey, -⟩ := (huv p hp q hq hne).mp ((hn p hp).trans (hn q hq).symm)
    refine ⟨key, fun x hx => ?_⟩
    obtain ⟨s, hs, rfl⟩ := ht.exists_mem h hrun hx
    by_cases hps : p = s
    · rw [← hps, hkey]
    · obtain ⟨key', hkey', hs'⟩ := (huv p hp s hs hps).mp ((hn p hp).trans (hn s hs).symm)
      rw [hs', ← hkey', hkey]
  · rintro ⟨key, hkey⟩
    have hkeyp : ∀ s ∈ r.positions, v (placeAt given number s) = some key := fun s hs =>
      hkey _ ((ht.mem_iff s).mp hs).2
    obtain ⟨n, hn⟩ := hu p hp key (hkeyp p hp)
    refine ⟨n, fun s hs => ?_⟩
    by_cases hps : p = s
    · rw [← hps, hn]
    · rw [← (huv p hp s hs hps).mpr ⟨key, hkeyp p hp, hkeyp s hs⟩, hn]

lemma several_iff (ht : texts.IsRepeatOf number given run r) (h : texts.Numbers number given) (hrun : run ≠ []) :
    (∃ p ∈ r.positions, ∃ q ∈ r.positions, p ≠ q) ↔ ∃ x y, x ≠ y ∧ texts.Occurs run x ∧ texts.Occurs run y := by
  constructor
  · rintro ⟨p, hp, q, hq, hne⟩
    exact ⟨_, _, (ht.ne_iff h hp hq).mpr hne, ((ht.mem_iff p).mp hp).2, ((ht.mem_iff q).mp hq).2⟩
  · rintro ⟨x, y, hne, hx, hy⟩
    obtain ⟨p, hp, rfl⟩ := ht.exists_mem h hrun hx
    obtain ⟨q, hq, rfl⟩ := ht.exists_mem h hrun hy
    exact ⟨p, hp, q, hq, (ht.ne_iff h hp hq).mp hne⟩

lemma common_before_iff (ht : texts.IsRepeatOf number given run r) (h : texts.Numbers number given) (hrun : run ≠ [])
    (hseveral : ∃ p ∈ r.positions, ∃ q ∈ r.positions, p ≠ q) :
    (∃ n, ∀ p ∈ r.positions, 0 < p ∧ (ofFiles given).keys[p - 1]? = some n) ↔
      ∃ key, ∀ x, texts.Occurs run x → texts.before? x = some key := by
  simp only [← Duplication.before?_eq_some]
  refine ht.exists_common_iff h hrun (fun p hp q hq hne => ?_) (fun p hp key hkey => ?_) hseveral
  · obtain ⟨⟨k, i, f, hf⟩, -⟩ := (ht.mem_iff p).mp hp
    obtain ⟨⟨l, j, g, hg⟩, -⟩ := (ht.mem_iff q).mp hq
    exact h.before?_eq_iff hf hg hne
  · obtain ⟨⟨k, i, f, hf⟩, -⟩ := (ht.mem_iff p).mp hp
    have hsize := hf.lt_size
    have hp := hf.position
    rw [hf.placeAt_eq] at hkey
    cases i with
    | zero => exact absurd hkey nofun
    | succ i => exact ⟨_, by rw [before?_of_pos _ (by omega), Array.getElem?_eq_getElem (by omega)]⟩

lemma common_behind_iff (ht : texts.IsRepeatOf number given run r) (h : texts.Numbers number given) (hrun : run ≠ [])
    (hseveral : ∃ p ∈ r.positions, ∃ q ∈ r.positions, p ≠ q) :
    (∃ n, ∀ p ∈ r.positions, (ofFiles given).keys[p + r.length]? = some n) ↔
      ∃ key, ∀ x, texts.Occurs run x → texts.behind? run.length x = some key := by
  rw [ht.length]
  refine ht.exists_common_iff h hrun (fun p hp q hq hne => ?_) (fun p hp key _ => ?_) hseveral
  · obtain ⟨⟨k, i, f, hf⟩, -⟩ := (ht.mem_iff p).mp hp
    obtain ⟨⟨l, j, g, hg⟩, -⟩ := (ht.mem_iff q).mp hq
    exact h.behind?_eq_iff hf hg hne
  · obtain ⟨⟨k, i, f, hf⟩, -⟩ := (ht.mem_iff p).mp hp
    exact ⟨_, Array.getElem?_eq_getElem hf.lt_size⟩

lemma isMaximal_iff (ht : texts.IsRepeatOf number given run r) (h : texts.Numbers number given) (hrun : run ≠ [])
    (hs : r.positions.Pairwise (· < ·)) : r.IsMaximal (ofFiles given).keys ↔ texts.IsMaximal run := by
  have htwo := two_le_length_iff (hs.imp Nat.ne_of_lt)
  constructor
  · intro hr
    have hseveral := htwo.mp hr.several
    exact ⟨(ht.several_iff h hrun).mp hseveral, fun hb => hr.before ((ht.common_before_iff h hrun hseveral).mpr hb),
      fun hb => hr.behind ((ht.common_behind_iff h hrun hseveral).mpr hb)⟩
  · intro hr
    have hseveral := (ht.several_iff h hrun).mpr hr.several
    refine ⟨?_, hs, htwo.mpr hseveral, fun hb => hr.before ((ht.common_before_iff h hrun hseveral).mp hb),
      fun hb => hr.behind ((ht.common_behind_iff h hrun hseveral).mp hb)⟩
    obtain ⟨q, hq, q', hq', hne⟩ := hseveral
    obtain ⟨⟨l, j, g, hg⟩, hocc⟩ := (ht.mem_iff q).mp hq
    have hstart := (h.occurs_placeAt_iff hrun hg).mp hocc
    have hpos := List.length_pos_iff.mpr hrun
    refine (Repeat.occurs_iff (ht.length ▸ hpos) hq).mpr fun p => ?_
    rw [ht.mem_iff, ht.length]
    constructor
    · rintro ⟨⟨k, i, f, hf⟩, hocc⟩
      exact ⟨hf.lt_size.le, (agree_iff_starts hf hg hrun hstart).mpr ((h.occurs_placeAt_iff hrun hf).mp hocc)⟩
    · rintro ⟨hsize, hagree⟩
      by_cases hpq : p = q
      · rw [hpq]
        exact ⟨⟨l, j, g, hg⟩, hocc⟩
      · obtain ⟨k, i, f, hf⟩ := exists_liesIn_of_agree hpq hsize hpos hagree.symm
        exact ⟨⟨k, i, f, hf⟩, (h.occurs_placeAt_iff hrun hf).mpr ((agree_iff_starts hf hg hrun hstart).mp hagree)⟩

lemma runOf_eq (ht : texts.IsRepeatOf number given run r) (h : texts.Numbers number given) (hrun : run ≠ [])
    (hr : r.IsMaximal (ofFiles given).keys) : runOf given r = run := by
  obtain ⟨p, hp, -, -, -⟩ := (two_le_length_iff (hr.sorted.imp Nat.ne_of_lt)).mp hr.several
  have hlen := ht.length
  have hpos := List.length_pos_iff.mpr hrun
  have ht' := h.isRepeatOf_runOf hr (by omega)
  exact run_eq ((ht'.mem_iff p).mp hp).2 ((ht.mem_iff p).mp hp).2 (by rw [← ht'.length, ht.length])

end IsRepeatOf

variable {minimum : ℕ}

lemma runOf_ne_nil (h : texts.Numbers number given) (hr : r.IsMaximal (ofFiles given).keys) (hpos : 0 < r.length) :
    runOf given r ≠ [] := by
  have hlen := (h.isRepeatOf_runOf hr hpos).length
  exact List.ne_nil_of_length_pos (by omega)

lemma mem_map_runOf_iff (h : texts.Numbers number given) :
    run ∈ (Repeat.all (ofFiles given).keys (.build (ofFiles given).keys) minimum).map (runOf given) ↔
      max minimum 1 ≤ run.length ∧ texts.IsMaximal run := by
  have hi := build_indexes (ofFiles given).keys
  rw [List.mem_map]
  constructor
  · rintro ⟨r, hr, rfl⟩
    obtain ⟨hl, hmax⟩ := (Repeat.mem_all hi).mp hr
    have hpos : 0 < r.length := by omega
    have ht := h.isRepeatOf_runOf hmax hpos
    exact ⟨ht.length ▸ hl, (ht.isMaximal_iff h (runOf_ne_nil h hmax hpos) hmax.sorted).mp hmax⟩
  · rintro ⟨hl, hmax⟩
    have hrun : run ≠ [] := List.ne_nil_of_length_pos (by omega)
    obtain ⟨r, hs, ht⟩ := exists_isRepeatOf texts number given run
    have hr := (ht.isMaximal_iff h hrun hs).mpr hmax
    exact ⟨r, (Repeat.mem_all hi).mpr ⟨ht.length ▸ hl, hr⟩, ht.runOf_eq h hrun hr⟩

lemma runOf_inj (h : texts.Numbers number given) {r' : Repeat} (hr : r.IsMaximal (ofFiles given).keys)
    (hr' : r'.IsMaximal (ofFiles given).keys) (hpos : 0 < r.length) (hpos' : 0 < r'.length)
    (he : runOf given r = runOf given r') : r = r' :=
  (h.isRepeatOf_runOf hr hpos).ext (he ▸ h.isRepeatOf_runOf hr' hpos') hr.sorted hr'.sorted

lemma nodup_map_runOf (h : texts.Numbers number given) :
    ((Repeat.all (ofFiles given).keys (.build (ofFiles given).keys) minimum).map (runOf given)).Nodup := by
  have hi := build_indexes (ofFiles given).keys
  refine (Repeat.nodup_all hi minimum).map_on fun r hr r' hr' he => ?_
  obtain ⟨hl, hmax⟩ := (Repeat.mem_all hi).mp hr
  obtain ⟨hl', hmax'⟩ := (Repeat.mem_all hi).mp hr'
  exact runOf_inj h hmax hmax' (by omega) (by omega) he

end Texts

end CodeClones
