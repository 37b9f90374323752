import Mathlib
import CodeClones.Proofs.Locality.Segments
import CodeClones.Proofs.Source.Closing
import CodeClones.Proofs.Source.Escapes
import CodeClones.Proofs.Source.Places

/-! Strict languages refuse a string that is open at the end of its line, whatever follows. -/

namespace CodeClones

open Source Success

variable {l : Language} {lineStart : Bool} {s w : List Char} {p : Position} {ss : List Segment}

namespace Position

lemma line_afterText (h : p.line ≤ maxCoordinate) (s : List Char) :
    (p.afterText s).line = min (p.line + s.count '\n') maxCoordinate := by
  induction s generalizing p with
  | nil => simpa using h
  | cons c s ih =>
    rw [afterText_cons, List.count_cons]
    by_cases hc : c = '\n'
    · have hafter : p.after c = ⟨bump p.line, 1⟩ := if_pos hc
      rw [hafter, ih (Nat.min_le_right _ _), bump, hc]
      generalize maxCoordinate = m
      simp only [beq_self_eq_true, if_true]
      omega
    · have hafter : p.after c = ⟨p.line, bump p.column⟩ := if_neg hc
      rw [hafter, ih (p := ⟨p.line, bump p.column⟩) h]
      simp [hc]

lemma afterText_lines (h : s = [] ∨ s.getLast? = some '\n') :
    start.afterText s = ⟨min (s.count '\n' + 1) maxCoordinate, 1⟩ := by
  have hline := line_afterText (p := start) (by decide) s
  have hcolumn : (start.afterText s).column = 1 := by
    rcases h with rfl | h
    · rfl
    · obtain ⟨s, rfl⟩ := List.getLast?_eq_some_iff.mp h
      rw [afterText_append]
      rfl
  calc start.afterText s = ⟨(start.afterText s).line, (start.afterText s).column⟩ := rfl
    _ = ⟨min (s.count '\n' + 1) maxCoordinate, 1⟩ := by
      rw [hline, hcolumn, Nat.add_comm]
      rfl

end Position

namespace Source

lemma AreRead.complete (hl : l ∈ Language.builtin) (hstrict : l.strict = true) (h : AreRead l lineStart ss [])
    (hlast : textOf ss = [] ∨ (textOf ss).getLast? = some '\n')
    (hrole : ∀ s ∈ ss, ∀ image reach, s.role ≠ .token .directive image reach) (z : List Char) :
    AreRead l lineStart ss z := by
  rcases List.eq_nil_or_concat ss with rfl | ⟨init, s, rfl⟩
  · trivial
  · rw [List.concat_eq_append] at *
    obtain ⟨hinit, hs⟩ := areRead_append.mp h
    have hne : s.text ≠ [] := by
      obtain ⟨⟨c, u, htext, -⟩, -⟩ := hs
      simp [htext]
    rw [textOf_append, textOf_cons, textOf_nil, List.append_nil, List.append_eq_nil_iff,
      List.getLast?_append_of_ne_nil _ hne] at hlast
    have hlast := hlast.resolve_left fun he => hne he.2
    obtain rfl := (areRead_singleton.mp hs).eq_blank_of_lineFeed hl hstrict hlast (hrole s (by simp))
    -- The line feed is read alone, and what is read in front of it looks no further.
    refine areRead_append.mpr ⟨?_, areRead_blank (by decide) _ _⟩
    have hhead : ∀ z, (('\n' :: z).dropWhile isSpace).head? = some '\n' := fun z => rfl
    exact hinit.exchange (t := []) hl (exchange_blank hl (by decide) _ _ _)
      (.of_head? ((hhead _).trans (hhead _).symm) _ _)

lemma read_openLiteral (hl : l ∈ Language.builtin) (hstrict : l.strict = true) (hq : l.quotes.contains '"' = true)
    (hm : l.multilineStrings = false) (hw : ∀ x ∈ w, x ≠ '"' ∧ x ≠ '\n') (he : ¬ EndsEscaping w)
    (lineStart : Bool) (s : List Char) : read l lineStart '"' (w ++ '\n' :: s) = .error ⟨0, .openLiteral⟩ := by
  have hline : l.opensLineComment ('"' :: (w ++ '\n' :: s)) = false := by
    rw [Bool.eq_false_iff]
    intro h
    rcases mark_of_opensLineComment hl h with ⟨h, -⟩ | ⟨h, -⟩ <;> exact absurd h (by decide)
  have hblock : l.opensBlockComment ('"' :: (w ++ '\n' :: s)) = false := by
    rw [Bool.eq_false_iff]
    intro h
    exact absurd (slash_of_opensBlockComment h).2.1 (by decide)
  have htriple : ¬ (l.tripleQuotes = true ∧ ['"', '"'].isPrefixOf (w ++ '\n' :: s) = true) := by
    rintro ⟨-, h⟩
    obtain ⟨u, hu⟩ := List.isPrefixOf_iff_prefix.mp h
    cases w with
    | nil => exact absurd (List.cons.inj hu).1 (by decide)
    | cons x w => exact (hw x List.mem_cons_self).1 (List.cons.inj hu).1.symm
  rw [read_of_not_opens (by decide) hline hblock, readToken_quote hq, Extent.string, if_neg htriple,
    Extent.literal_lineFeed hm rfl hw he, hstrict]
  rfl

lemma cut_openLiteral (hl : l ∈ Language.builtin) (hstrict : l.strict = true) (hq : l.quotes.contains '"' = true)
    (hm : l.multilineStrings = false) (h : AreRead l true ss [])
    (hlast : textOf ss = [] ∨ (textOf ss).getLast? = some '\n')
    (hrole : ∀ s ∈ ss, ∀ image reach, s.role ≠ .token .directive image reach)
    (hw : ∀ x ∈ w, x ≠ '"' ∧ x ≠ '\n') (he : ¬ EndsEscaping w) (b : List Char) :
    cut l (textOf ss ++ '"' :: (w ++ '\n' :: b)) = ⟨ss, '"' :: (w ++ '\n' :: b), some ⟨0, .openLiteral⟩⟩ := by
  rw [cut, cutOnto_textOf (h.complete hl hstrict hlast hrole _),
    cutOnto_of_error (read_openLiteral hl hstrict hq hm hw he _ b), Cut.follow, List.append_nil]

end Source

lemma dropByteOrderMark_lines {a : List Char} (h : a = [] ∨ a.getLast? = some '\n') :
    (dropByteOrderMark a = [] ∨ (dropByteOrderMark a).getLast? = some '\n') ∧
      (dropByteOrderMark a).count '\n' = a.count '\n' := by
  rw [dropByteOrderMark.eq_def]
  split
  · next a =>
    refine ⟨?_, by rw [List.count_cons_of_ne (by decide)]⟩
    cases a with
    | nil => exact .inl rfl
    | cons c a => exact .inr (by simpa using h)
  · exact ⟨h, rfl⟩

lemma strict_languages : ∀ l ∈ [Language.java, Language.csharp, Language.go],
    l ∈ Language.builtin ∧ l.strict = true ∧ l.quotes.contains '"' = true ∧ l.multilineStrings = false := by
  decide +kernel

/-- A string that is open at the end of its line is an error there, and all tokens of the lines before it are found. -/
theorem Language.tokenize_openLiteral (hl : l ∈ [java, csharp, go]) {a : List Char} {file : ℕ}
    (ha : a = [] ∨ a.getLast? = some '\n') (herror : (l.tokenize (String.ofList a) file {}).error = none)
    (hkinds : ∀ t ∈ (l.tokenize (String.ofList a) file {}).tokens, t.kind ≠ .directive)
    (hw : ∀ x ∈ w, x ≠ '"' ∧ x ≠ '\n') (he : ¬ EndsEscaping w) (b : List Char) (n : Normalization) :
    l.tokenize (String.ofList (a ++ '"' :: (w ++ '\n' :: b))) file n =
      ⟨(l.tokenize (String.ofList a) file n).tokens,
        some ⟨⟨min (a.count '\n' + 1) maxCoordinate, 1⟩, "unterminated literal"⟩⟩ := by
  obtain ⟨hb, hstrict, hq, hm⟩ := strict_languages l hl
  rw [tokenize_default, String.toList_ofList] at herror hkinds
  have hcut := isCut_cut hb (dropByteOrderMark a)
  have hunread := hcut.unread_eq_nil (Option.map_eq_none_iff.mp herror)
  have htext : textOf (cut l (dropByteOrderMark a)).segments = dropByteOrderMark a := by
    simpa [hunread] using hcut.text_eq
  have hlines := dropByteOrderMark_lines ha
  have hrole : ∀ s ∈ (cut l (dropByteOrderMark a)).segments, ∀ image reach,
      s.role ≠ .token .directive image reach := by
    intro s hs image reach hr
    obtain ⟨t, ht, hkey⟩ := exists_token_of_mem hs hr file .start
    exact hkinds t ht (congrArg Key.kind hkey)
  have hwhole := cut_openLiteral hb hstrict hq hm (hunread ▸ hcut.read) (htext.symm ▸ hlines.1) hrole hw he b
  rw [htext, ← dropByteOrderMark_append a (by simp)] at hwhole
  rw [tokenize, tokenize, String.toList_ofList, String.toList_ofList, hwhole]
  simp only [TokenStream.normalize, Cut.stream, endOf_eq, htext, Option.map_some, List.take_zero,
    Position.afterText_nil, Position.afterText_lines hlines.1, hlines.2]
  rfl

set_option maxRecDepth 20000 in
theorem Language.tokenize_openLiteral_go :
    ("f\n".toList = [] ∨ "f\n".toList.getLast? = some '\n') ∧
    (go.tokenize (String.ofList "f\n".toList) 0 {}).error = none ∧
    (∀ t ∈ (go.tokenize (String.ofList "f\n".toList) 0 {}).tokens, t.kind ≠ .directive) ∧
    (∀ x ∈ "a\\\\".toList, x ≠ '"' ∧ x ≠ '\n') ∧ ¬ EndsEscaping "a\\\\".toList ∧
    go.tokenize (String.ofList ("f\n".toList ++ '"' :: ("a\\\\".toList ++ '\n' :: "\"b".toList))) 0 {} =
      ⟨[⟨.identifier, some "f", 0, ⟨1, 1⟩, ⟨1, 1⟩⟩], some ⟨⟨2, 1⟩, "unterminated literal"⟩⟩ := by
  have hstream : go.tokenize (String.ofList "f\n".toList) 0 {} =
      ⟨[⟨.identifier, some "f", 0, ⟨1, 1⟩, ⟨1, 1⟩⟩], none⟩ := by
    cbv
  have ha : "f\n".toList = [] ∨ "f\n".toList.getLast? = some '\n' := .inr (by decide)
  have herror : (go.tokenize (String.ofList "f\n".toList) 0 {}).error = none := by rw [hstream]
  have hkinds : ∀ t ∈ (go.tokenize (String.ofList "f\n".toList) 0 {}).tokens, t.kind ≠ .directive := by
    rw [hstream]
    simp
  have hw : ∀ x ∈ "a\\\\".toList, x ≠ '"' ∧ x ≠ '\n' := by simp
  have he : ¬ EndsEscaping "a\\\\".toList := by decide
  refine ⟨ha, herror, hkinds, hw, he, ?_⟩
  rw [tokenize_openLiteral (by decide +kernel) ha herror hkinds hw he "\"b".toList {}, hstream]
  rfl

set_option maxRecDepth 20000 in
theorem Language.escape_takes_lineFeed : ¬ ∀ l ∈ [java, csharp, go], ∀ a w b : List Char,
    (a = [] ∨ a.getLast? = some '\n') → (l.tokenize (String.ofList a) 0 {}).error = none →
    (∀ t ∈ (l.tokenize (String.ofList a) 0 {}).tokens, t.kind ≠ .directive) →
    w ≠ [] → (∀ x ∈ w, x ≠ '"' ∧ x ≠ '\n') →
    l.tokenize (String.ofList (a ++ '"' :: (w ++ '\n' :: b))) 0 {} =
      ⟨(l.tokenize (String.ofList a) 0 {}).tokens,
        some ⟨⟨min (a.count '\n' + 1) maxCoordinate, 1⟩, "unterminated literal"⟩⟩ := by
  intro h
  have hempty : java.tokenize (String.ofList []) 0 {} = ⟨[], none⟩ := by
    cbv
  have hstring : java.tokenize (String.ofList ([] ++ '"' :: (['\\'] ++ '\n' :: ['"']))) 0 {} =
      ⟨[⟨.string, some "\"\\\n\"", 0, ⟨1, 1⟩, ⟨2, 1⟩⟩], none⟩ := by
    cbv
  have heq := h java (by decide +kernel) [] ['\\'] ['"'] (.inl rfl) (by rw [hempty]) (by rw [hempty]; simp) (by simp)
    (by simp)
  rw [hstring] at heq
  exact absurd (congrArg TokenStream.error heq) (by simp)

end CodeClones
