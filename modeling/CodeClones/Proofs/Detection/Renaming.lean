import Mathlib
import CodeClones.Proofs.Duplication.Alike
import CodeClones.Proofs.Detection.Accesses
import CodeClones.Proofs.Locality.Renaming

/-! Renaming changes nothing that is compared, and no duplication. -/

namespace CodeClones

open Corpus Duplication Success Source

def Detection.outline (x : Detection) : List (ℕ × UInt64 × List (ℕ × ℕ)) := x.duplications.map (·.outline)

def Detection.summary (x : Detection) : Multiset (ℕ × UInt64 × Multiset (ℕ × ℕ)) := x.duplications.map (·.summary)

variable {l : Language} {n : Normalization} {d : Detector} {o : Options} {files files' : List SourceFile}
  {text : List Char} {file : ℕ}

/-! ### Places in order -/

lemma Position.Before.trans {p q r : Position} (h : p.Before q) (h' : q.Before r) : p.Before r := by
  unfold Before at *
  omega

lemma TokenStream.IsPlacedIn.pairwise_first {s : TokenStream} (h : s.IsPlacedIn text) :
    s.tokens.Pairwise fun t u => t.first.Before u.first := by
  refine h.ordered.imp_of_mem fun {t u} ht _ htu => ?_
  obtain ⟨i, j, hs⟩ := h.spans t ht
  rcases hs.nonempty.eq_or_lt with rfl | hlt
  · rwa [hs.first, ← hs.last]
  · refine Position.Before.trans ?_ htu
    rw [hs.first, hs.last]
    exact Position.before_ofIndex hlt hs.inside.le

lemma Normalization.first_of_apply {t u : Token} (h : n.apply t = some u) : u.first = t.first := by
  rw [apply] at h
  split at h
  · simp at h
  · split at h <;> rw [← Option.some.inj h]

lemma Language.pairwise_first (hl : l ∈ Language.builtin) {source : String}
    (hlen : (dropByteOrderMark source.toList).length < maxCoordinate) (file : ℕ) (n : Normalization) :
    (l.tokenize source file n).tokens.Pairwise fun t u => t.first.Before u.first := by
  refine List.pairwise_filterMap.mpr ?_
  refine (isPlacedIn_stream hl hlen file (isCut_cut hl _)).pairwise_first.imp fun {t u} htu t' ht u' hu => ?_
  rwa [Normalization.first_of_apply ht, Normalization.first_of_apply hu]

/-! ### Detection in files that are alike -/

lemma Corpus.AreAlike.detect (h : AreAlike d.registry o files files') {result : Detection}
    (hd : d.detect files o = .ok result) : ∃ result', d.detect files' o = .ok result' ∧
      result.summary = result'.summary ∧
      (List.Forall₂ TokenizedFile.SameOrder (gathered d.registry o files) (gathered d.registry o files') →
        result.outline = result'.outline) := by
  obtain ⟨hv, corpus, warnings, found, hb, hf, rfl⟩ := Detector.detect_eq_ok_iff.mp hd
  obtain ⟨⟨corpus', warnings'⟩, hb'⟩ := h.exists_build ⟨_, hb⟩
  obtain rfl : corpus = ofFiles (gathered d.registry o files) := build_eq_ok hb
  obtain rfl : corpus' = ofFiles (gathered d.registry o files') := build_eq_ok hb'
  obtain ⟨found', hf'⟩ := Detector.exists_outcomes (gathered d.registry o files') o.minimumTokens
  refine ⟨_, Detector.detect_eq_ok_iff.mpr ⟨hv, _, warnings', found', hb', hf', rfl⟩, ?_, fun ho => ?_⟩
  · exact Multiset.coe_eq_coe.mpr (summary_report_perm h.alike (forall₂_outcomes h.alike hf hf'))
  · exact outline_report_eq h.alike ho (pairwise_inputIndex _ _ _) (forall₂_outcomes h.alike hf hf')

lemma rel_accepted {R : TokenizedFile → TokenizedFile → Prop} {t : Tokenizer} {f : SourceFile} {source : String} {i : ℕ}
    (h : (t.tokenize f.source i o.normalization).Agrees (t.tokenize source i o.normalization))
    (hR : ∀ g g' : TokenizedFile, g.Alike g' → g.tokens = (t.tokenize f.source i o.normalization).tokens →
      g'.tokens = (t.tokenize source i o.normalization).tokens → R g g') :
    Option.Rel R (accepted? o ((f, t), i)) (accepted? o (({ f with source }, t), i)) := by
  obtain ⟨hkeys, herror⟩ := h
  rw [accepted?, accepted?]
  dsimp only
  generalize t.tokenize f.source i o.normalization = s, t.tokenize source i o.normalization = s' at *
  obtain ⟨tokens, error⟩ := s
  obtain ⟨tokens', error'⟩ := s'
  cases error with
  | none =>
    cases error' with
    | none => exact .some (hR _ _ ⟨rfl, hkeys⟩ rfl rfl)
    | some e => simp at herror
  | some e =>
    cases error' with
    | none => simp at herror
    | some e' => exact .none

/-- A word can be exchanged for another if normalization leaves it out: the keys of the tokens stay the same, and so
do the numbers in a corpus and what is told of duplications. Their order may change only where lines or columns are
not counted any more. -/
theorem Detector.detect_renamed {kind : Kind} {before old behind new : List Char} (hl : l ∈ Language.builtin)
    (h : IsRenaming l o.normalization kind before old behind new) :
    (∀ file, (l.tokenize (String.ofList (before ++ old ++ behind)) file o.normalization).Agrees
      (l.tokenize (String.ofList (before ++ new ++ behind)) file o.normalization)) ∧
    ∀ (d : Detector) (files : List SourceFile) (i : ℕ) (f : SourceFile), files[i]? = some f →
      f.source = String.ofList (before ++ old ++ behind) →
      d.registry.get? (f.languageOr o.language) = some (.ofLanguage l) →
      let renamed := files.set i { f with source := String.ofList (before ++ new ++ behind) }
      (Corpus.build d.registry o d.cancelled files).toOption.map (·.1.keys) =
        (Corpus.build d.registry o d.cancelled renamed).toOption.map (·.1.keys) ∧
      (d.detect files o).toOption.map (·.summary) = (d.detect renamed o).toOption.map (·.summary) ∧
      ((dropByteOrderMark (before ++ old ++ behind)).length < maxCoordinate →
        (dropByteOrderMark (before ++ new ++ behind)).length < maxCoordinate →
        (d.detect files o).toOption.map (·.outline) = (d.detect renamed o).toOption.map (·.outline)) := by
  refine ⟨h.agrees hl, fun d files i f hi hsource ht => ?_⟩
  intro renamed
  have hagrees := hsource ▸ h.agrees hl i
  have hlanguages : files.map (·.languageOr o.language) = renamed.map (·.languageOr o.language) := by
    obtain ⟨hlt, rfl⟩ := List.getElem?_eq_some_iff.mp hi
    have hsame : renamed.map (·.languageOr o.language) = (files.set i files[i]).map (·.languageOr o.language) := by
      rw [List.map_set, List.map_set]
      rfl
    rw [hsame, List.set_getElem_self]
  have halike : AreAlike d.registry o files renamed := by
    refine ⟨hlanguages, forall₂_gathered_set .refl hi ht ht ?_⟩
    exact rel_accepted hagrees fun _ _ h _ _ => h
  refine ⟨halike.keys_eq d.cancelled, map_toOption_eq (fun result hd => ?_) fun result hd => ?_, fun hlen hlen' =>
    map_toOption_eq (fun result hd => ?_) fun result hd => ?_⟩
  · obtain ⟨result', hd', hsummary, -⟩ := halike.detect hd
    exact ⟨result', hd', hsummary⟩
  · obtain ⟨result', hd', -⟩ := halike.symm.detect hd
    exact ⟨result', hd'⟩
  · obtain ⟨result', hd', -, houtline⟩ := halike.detect hd
    refine ⟨result', hd', houtline (forall₂_gathered_set .refl hi ht ht (rel_accepted hagrees ?_))⟩
    intro g g' _ hg hg'
    refine .of_increasing ?_ ?_
    · rw [hg, hsource]
      exact l.pairwise_first hl (by rwa [String.toList_ofList]) i o.normalization
    · rw [hg']
      exact l.pairwise_first hl (by rwa [String.toList_ofList]) i o.normalization
  · obtain ⟨result', hd', -⟩ := halike.symm.detect hd
    exact ⟨result', hd'⟩

set_option maxRecDepth 20000 in
theorem Detector.detect_renamed_rust :
    Language.rust ∈ Language.builtin ∧
    IsRenaming .rust { ignoreIdentifiers := true } .identifier "f ".toList "x".toList " y".toList "zz".toList ∧
    (detect {} [⟨"a", String.ofList ("f ".toList ++ "x".toList ++ " y".toList), none⟩, ⟨"b", "f x y", none⟩]
      { minimumTokens := 2, language := "rust", normalization := { ignoreIdentifiers := true } }).toOption.map
        (fun result => result.outline.map fun dup => (dup.1, dup.2.2)) =
      some [(3, [(0, 0), (1, 0)]), (2, [(0, 0), (1, 1)]), (2, [(0, 1), (1, 0)])] ∧
    (detect {} [⟨"a", String.ofList ("f ".toList ++ "x".toList ++ " y".toList), none⟩, ⟨"b", "f x y", none⟩]
      { minimumTokens := 2, language := "rust", normalization := { ignoreIdentifiers := true } }).toOption.map
        (·.outline) =
      (detect {} [⟨"a", String.ofList ("f ".toList ++ "zz".toList ++ " y".toList), none⟩, ⟨"b", "f x y", none⟩]
        { minimumTokens := 2, language := "rust", normalization := { ignoreIdentifiers := true } }).toOption.map
          (·.outline) := by
  have hrenaming : IsRenaming .rust { ignoreIdentifiers := true } .identifier "f ".toList "x".toList " y".toList
      "zz".toList := {
    token := ⟨[⟨.token .identifier ['f'] 1, ['f']⟩, ⟨.blank, [' ']⟩], ['x'], 1,
      [⟨.blank, [' ']⟩, ⟨.token .identifier ['y'] 1, ['y']⟩], by cbv, rfl,
      fun word _ => by simp [keysOf, Segment.key?, List.filterMap_cons]⟩
    collapses := rfl
    blankBefore := by
      rintro _ ⟨⟩
      decide
    blankBehind := by
      rintro _ ⟨⟩
      decide
    alone := ⟨⟨.identifier, some "zz", 0, ⟨1, 1⟩, ⟨1, 2⟩⟩, by cbv, rfl⟩ }
  have h := detect_renamed
    (o := { minimumTokens := 2, language := "rust", normalization := { ignoreIdentifiers := true } })
    (by decide +kernel) hrenaming
  exact ⟨by decide +kernel, hrenaming, by cbv, (h.2 {}
    [⟨"a", String.ofList ("f ".toList ++ "x".toList ++ " y".toList), none⟩, ⟨"b", "f x y", none⟩] 0
    ⟨"a", String.ofList ("f ".toList ++ "x".toList ++ " y".toList), none⟩ rfl rfl (by cbv)).2.2 (by decide) (by decide)⟩

end CodeClones
