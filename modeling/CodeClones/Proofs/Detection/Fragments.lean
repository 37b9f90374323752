import Mathlib
import CodeClones.Proofs.Detection.Order
import CodeClones.Proofs.Insertion.Outcomes
import CodeClones.Proofs.Lines

/-! The fragment of a duplication shows the lines that its first occurrence says. -/

namespace CodeClones

open Corpus Duplication Success Source Text

variable {l : Language} {n : Normalization} {d : Detector} {files : List SourceFile} {o : Options} {result : Detection}
  {dup : Duplication} {given : List TokenizedFile} {f : TokenizedFile} {x : Occurrence} {c : Corpus} {t : Token}
  {k i : ℕ} {r : Registry}

lemma Normalization.last_of_apply {t u : Token} (h : n.apply t = some u) : u.last = t.last := by
  rw [apply] at h
  split at h
  · simp at h
  · split at h <;> rw [← Option.some.inj h]

def Token.IsWithin (t : Token) (text : List Char) : Prop :=
  ∃ i j, i ≤ j ∧ j < text.length ∧ t.first = .ofIndex text i ∧ t.last = .ofIndex text j

lemma Language.isWithin_tokenize (hl : l ∈ Language.builtin) {source : String}
    (hlen : (dropByteOrderMark source.toList).length < maxCoordinate) {file : ℕ}
    (ht : t ∈ (l.tokenize source file n).tokens) : t.IsWithin (dropByteOrderMark source.toList) := by
  obtain ⟨u, hu, ht⟩ := List.mem_filterMap.mp ht
  obtain ⟨i, j, hs⟩ := (isPlacedIn_stream hl hlen file (isCut_cut hl _)).spans u hu
  refine ⟨i, j, hs.nonempty, hs.inside, ?_, ?_⟩
  · rw [Normalization.first_of_apply ht, hs.first]
  · rw [Normalization.last_of_apply ht, hs.last]

namespace Token.IsWithin

variable {source : List Char}

lemma line_le (h : t.IsWithin source) : t.first.line ≤ t.last.line := by
  obtain ⟨i, j, hij, -, hfirst, hlast⟩ := h
  rw [hfirst, hlast]
  exact Position.line_mono hij

lemma line_pos (h : t.IsWithin source) : 0 < t.first.line := by
  obtain ⟨i, j, -, -, hfirst, -⟩ := h
  rw [hfirst]
  exact Nat.succ_pos _

lemma line_le_length (h : t.IsWithin (dropByteOrderMark source)) : t.last.line ≤ (lines source).length := by
  obtain ⟨i, j, -, hj, -, hlast⟩ := h
  rw [hlast]
  exact Position.line_ofIndex_le source hj

lemma line_le_chars (h : t.IsWithin source) : t.last.line ≤ source.length := by
  obtain ⟨i, j, -, hj, -, hlast⟩ := h
  have : (source.take j).count '\n' ≤ (source.take j).length := List.count_le_length
  rw [List.length_take] at this
  rw [hlast, Position.line_ofIndex]
  omega

end Token.IsWithin

lemma line_le_of_getElem? {tokens : List Token} {u : Token} {j : ℕ}
    (h : tokens.Pairwise fun t u => t.first.Before u.first) (ht : tokens[i]? = some t) (hu : tokens[j]? = some u)
    (hij : i ≤ j) : t.first.line ≤ u.first.line := by
  obtain ⟨hi, rfl⟩ := List.getElem?_eq_some_iff.mp ht
  obtain ⟨hj, rfl⟩ := List.getElem?_eq_some_iff.mp hu
  rcases Nat.eq_or_lt_of_le hij with rfl | hlt
  · exact le_rfl
  · rcases List.pairwise_iff_getElem.mp h i j hi hj hlt with hb | ⟨hb, -⟩
    · exact hb.le
    · exact hb.le

/-! ### The file of an occurrence -/

namespace Duplication

lemma lines_of_ofChain {length : ℕ} {hash : UInt64} {chain : List ℕ} (h : ofChain c length hash chain = .ok dup) :
    dup.lines = dup.occurrences.head?.elim 0 (·.lineCount) ∧
      dup.fragment = dup.occurrences.head?.elim "" (fragmentOf c) := by
  rw [ofChain_def] at h
  obtain ⟨found, -, h⟩ := bind_eq_ok.mp h
  obtain rfl := Except.ok.inj h
  exact ⟨rfl, rfl⟩

lemma fragmentOf_of_getElem? (hu : given.Pairwise fun f g => f.inputIndex < g.inputIndex) (hf : given[k]? = some f)
    (hx : x.file = f.inputIndex) :
    fragmentOf (ofFiles given) x = String.ofList (lineRange f.source.toList x.first.line x.last.line) := by
  have hfind : given.find? (·.inputIndex = x.file) = some f := by
    cases hg : given.find? (·.inputIndex = x.file) with
    | none => exact absurd hx.symm (by simpa using List.find?_eq_none.mp hg f (List.mem_of_getElem? hf))
    | some g =>
      obtain ⟨j, hj⟩ := List.mem_iff_getElem?.mp (List.mem_of_find?_eq_some hg)
      have hindex : g.inputIndex = f.inputIndex := by
        rw [← hx]
        simpa using List.find?_some hg
      obtain rfl := index_unique hu hj hf hindex
      exact hj.symm.trans hf
  rw [fragmentOf_eq, hfind]
  rfl

end Duplication

namespace Detector

lemma lines_of_mem (h : d.detect files o = .ok result) (hdup : dup ∈ result.duplications) :
    dup.lines = dup.occurrences.head?.elim 0 (·.lineCount) ∧
      dup.fragment = dup.occurrences.head?.elim "" (fragmentOf (ofFiles (gathered d.registry o files))) := by
  obtain ⟨-, found, hf, he⟩ := detect_eq_ok h
  obtain ⟨outcome, ho, hm⟩ := mem_report.mp (he ▸ hdup)
  obtain ⟨r, -, hr⟩ := exists_of_mem_right (outcomes_eq_ok hf) ho
  obtain ⟨hash, chain, hc⟩ := exists_ofChain_of_outcomeOf hr hm
  exact lines_of_ofChain hc

lemma length_occurrences_pos (h : d.detect files o = .ok result) (hdup : dup ∈ result.duplications) :
    0 < dup.occurrences.length := by
  obtain ⟨r, pair, -, hpos, hmax, hp, hof⟩ := exists_repeat h hdup
  obtain ⟨ha, hb, hle, -, -⟩ := mem_maximalPairs.mp hp
  have hseveral := two_le_length hof (by omega) (holds_chainThrough hmax.sorted ha hb (by omega))
  exact Nat.lt_of_lt_of_le Nat.two_pos hseveral

lemma exists_source_of_mem (hf : f ∈ gathered r o files) :
    ∃ file ∈ files, f.path = file.path ∧ f.source = file.source := by
  obtain ⟨file, t, hfile, -, ha⟩ := mem_gathered.mp hf
  obtain ⟨tokens, -, he⟩ := accepted?_eq_some ha
  rw [he]
  exact ⟨file, List.mem_of_getElem? hfile, rfl, rfl⟩

lemma exists_source (h : d.detect files o = .ok result) (hdup : dup ∈ result.duplications) (hx : x ∈ dup.occurrences) :
    ∃ file ∈ files, x.path = file.path ∧ fragmentOf (ofFiles (gathered d.registry o files)) x =
      String.ofList (lineRange file.source.toList x.first.line x.last.line) := by
  obtain ⟨r, pair, -, -, -, -, hof⟩ := exists_repeat h hdup
  obtain ⟨p, -, k, i, f, hlies, htells⟩ := hof.exists_position hx
  obtain ⟨file, hfile, hpath, hsource⟩ := exists_source_of_mem (List.mem_of_getElem? hlies.file)
  refine ⟨file, hfile, htells.path.trans hpath, ?_⟩
  rw [fragmentOf_of_getElem? (pairwise_inputIndex _ _ _) hlies.file htells.file, hsource]

lemma exists_source_of_fragment (h : d.detect files o = .ok result) (hdup : dup ∈ result.duplications) :
    ∃ file ∈ files, dup.fragment.toList ⊆ '\n' :: file.source.toList := by
  obtain ⟨x, others, hx⟩ := List.exists_cons_of_length_pos (length_occurrences_pos h hdup)
  obtain ⟨file, hfile, -, hfragment⟩ := exists_source h hdup (hx ▸ List.mem_cons_self)
  refine ⟨file, hfile, ?_⟩
  rw [(lines_of_mem h hdup).2, hx, List.head?_cons, Option.elim_some, hfragment, String.toList_ofList]
  exact lineRange_subset _ _ _

lemma lines_exist (hd : d.registry = .builtin) (hlen : ∀ file ∈ files, file.source.length < maxCoordinate)
    (h : d.detect files o = .ok result) (hdup : dup ∈ result.duplications) (hx : x ∈ dup.occurrences) :
    ∃ (file : SourceFile) (k : ℕ) (f : TokenizedFile), files[x.file]? = some file ∧
      (gathered d.registry o files)[k]? = some f ∧ x.file = f.inputIndex ∧ f.source = file.source ∧
      0 < x.first.line ∧ x.first.line ≤ x.last.line ∧
      x.last.line ≤ (lines file.source.toList).length ∧ x.last.line < maxCoordinate := by
  obtain ⟨r, pair, -, hpos, -, -, hof⟩ := exists_repeat h hdup
  obtain ⟨p, -, k, i, f, hlies, htells⟩ := hof.exists_position hx
  have hf := List.mem_of_getElem? hlies.file
  obtain ⟨file, l, hl, hfile, hsource, htokens⟩ := exists_language_of_mem (hd ▸ hf)
  have hbare := length_bare_lt (hlen file (List.mem_of_getElem? hfile))
  have hwithin : ∀ t ∈ f.tokens, t.IsWithin (dropByteOrderMark file.source.toList) := fun t ht =>
    l.isWithin_tokenize hl hbare (htokens ▸ ht)
  obtain ⟨t, hti, hfirst⟩ := Option.map_eq_some_iff.mp htells.first
  obtain ⟨u, huj, hlast⟩ := Option.map_eq_some_iff.mp htells.last
  have ht := hwithin t (List.mem_of_getElem? hti)
  have hu := hwithin u (List.mem_of_getElem? huj)
  have hle := line_le_of_getElem? (pairwise_first_of_mem hlen (hd ▸ hf)) hti huj (by omega)
  rw [← hfirst, ← hlast]
  exact ⟨file, k, f, htells.file ▸ hfile, hlies.file, htells.file, hsource, ht.line_pos, hle.trans hu.line_le,
    hu.line_le_length, hu.line_le_chars.trans_lt hbare⟩

/-- The fragment of a duplication consists of the lines of its first occurrence: they exist, there are as many of them
as the duplication says, and no other line feeds are shown. -/
theorem detect_fragments (hd : d.registry = .builtin) (hlen : ∀ file ∈ files, file.source.length < maxCoordinate)
    (h : d.detect files o = .ok result) (hdup : dup ∈ result.duplications) :
    ∃ x others file, dup.occurrences = x :: others ∧ files[x.file]? = some file ∧
      0 < x.first.line ∧ x.first.line ≤ x.last.line ∧ x.last.line ≤ (physicalLines file.source.toList).length ∧
      dup.lines = x.last.line - x.first.line + 1 ∧
      dup.fragment = String.ofList (['\n'].intercalate
        (((physicalLines file.source.toList).drop (x.first.line - 1)).take dup.lines)) ∧
      dup.fragment.toList.splitOn '\n' =
        ((physicalLines file.source.toList).drop (x.first.line - 1)).take dup.lines ∧
      (dup.fragment.toList.splitOn '\n').length = dup.lines := by
  have hu := pairwise_inputIndex d.registry o files
  obtain ⟨hlines, hfragment⟩ := lines_of_mem h hdup
  obtain ⟨x, others, hx⟩ := List.exists_cons_of_length_pos (length_occurrences_pos h hdup)
  obtain ⟨file, k, f, hfile, hf, hindex, hsource, hexist⟩ :=
    lines_exist hd hlen h hdup (hx ▸ List.mem_cons_self)
  obtain ⟨hpos, hspan, hend, hmax⟩ := hexist
  have hcount : dup.lines = x.last.line - x.first.line + 1 := by
    rw [hlines, hx, List.head?_cons, Option.elim_some, Occurrence.lineCount, Nat.min_eq_left (by omega)]
  have htext : dup.fragment = String.ofList (lineRange file.source.toList x.first.line x.last.line) := by
    rw [hfragment, hx, List.head?_cons, Option.elim_some, fragmentOf_of_getElem? hu hf hindex, hsource]
  have hpieces : dup.fragment.toList.splitOn '\n' =
      ((physicalLines file.source.toList).drop (x.first.line - 1)).take dup.lines := by
    rw [htext, String.toList_ofList, splitOn_lineRange hpos hspan hend, hcount]
  have hphysical := hend.trans (lines_isInitial _).length_le
  refine ⟨x, others, file, hx, hfile, hpos, hspan, hphysical, hcount, ?_, hpieces, ?_⟩
  · rw [htext, lineRange_eq hpos hspan hend, hcount]
  · rw [hpieces, List.length_take, List.length_drop]
    omega

set_option maxRecDepth 20000 in
theorem detect_fragments_text : ∃ result, ∃ dup ∈ result.duplications,
    detect {} [⟨"a", "u v\r\nx\r\n\ny", none⟩, ⟨"b", "x y", none⟩] { minimumTokens := 2, language := "text" } =
      .ok result ∧ dup.fragment = "x\n\ny" ∧
    ∃ x others file, dup.occurrences = x :: others ∧
      ([⟨"a", "u v\r\nx\r\n\ny", none⟩, ⟨"b", "x y", none⟩] : List SourceFile)[x.file]? = some file ∧
      0 < x.first.line ∧ x.first.line ≤ x.last.line ∧ x.last.line ≤ (physicalLines file.source.toList).length ∧
      dup.lines = x.last.line - x.first.line + 1 ∧
      dup.fragment = String.ofList (['\n'].intercalate
        (((physicalLines file.source.toList).drop (x.first.line - 1)).take dup.lines)) ∧
      dup.fragment.toList.splitOn '\n' =
        ((physicalLines file.source.toList).drop (x.first.line - 1)).take dup.lines ∧
      (dup.fragment.toList.splitOn '\n').length = dup.lines := by
  have h : ∃ result, ∃ dup ∈ result.duplications,
      detect {} [⟨"a", "u v\r\nx\r\n\ny", none⟩, ⟨"b", "x y", none⟩] { minimumTokens := 2, language := "text" } =
        .ok result ∧ dup.fragment = "x\n\ny" := ⟨_, _, List.mem_cons_self, by cbv, rfl⟩
  obtain ⟨result, dup, hdup, hr, hshown⟩ := h
  exact ⟨result, dup, hdup, hr, hshown, detect_fragments rfl (by decide) hr hdup⟩

end Detector

end CodeClones
