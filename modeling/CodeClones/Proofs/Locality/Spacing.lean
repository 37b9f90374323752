import Mathlib
import CodeClones.Proofs.Locality.Segments
import CodeClones.Proofs.Source.Trivia

/-! Layout does not matter: a space behind a blank changes no token. -/

namespace CodeClones

namespace Source

variable {l : Language} {lineStart : Bool} {c w s : Char} {n depth k : ℕ} {u q q' behind : List Char}
  {nested : Bool}

/-! ### Blanks in comments -/

lemma ne_of_isSpace (h : isSpace s = true) : s ≠ '\n' := by
  rintro rfl
  exact absurd h (by decide)

namespace Extent

def later : Extent → Extent
  | closed n => closed (n + 1)
  | unclosed n => unclosed (n + 1)

lemma settle_later (e : Extent) (strict : Bool) (fault : Fault) :
    e.later.settle strict fault = (e.settle strict fault).map (· + 1) := by
  cases e with
  | closed n => rfl
  | unclosed n => cases strict <;> rfl

lemma length_of_settle {e : Extent} {strict : Bool} {fault : Fault} (h : e.settle strict fault = .ok k) :
    e.length = k := by
  cases e with
  | closed n => exact Except.ok.inj h
  | unclosed n =>
    cases strict with
    | true => simp [settle] at h
    | false => exact Except.ok.inj h

lemma blockComment_eq_unclosed (h : blockComment nested depth n u = .unclosed k) : k = n + u.length := by
  fun_induction blockComment nested depth n u with
  | case1 => simpa using h.symm
  | case2 => simp at h
  | case3 depth n c rest hc hd ih =>
    obtain ⟨rest, rfl⟩ := List.head?_eq_some_iff.mp hc.2
    have := ih h
    simp only [List.tail_cons, List.length_cons] at this ⊢
    omega
  | case4 depth n c rest hc hc' ih =>
    obtain ⟨rest, rfl⟩ := List.head?_eq_some_iff.mp hc'.2.2
    have := ih h
    simp only [List.tail_cons, List.length_cons] at this ⊢
    omega
  | case5 depth n c rest hc hc' ih =>
    have := ih h
    rw [List.length_cons]
    omega

lemma blockComment_succ (nested : Bool) (depth n : ℕ) (u : List Char) :
    blockComment nested depth (n + 1) u = (blockComment nested depth n u).later := by
  fun_induction blockComment nested depth n u with
  | case1 => simp [blockComment, later]
  | case2 n c rest hc =>
    rw [blockComment, if_pos hc, if_pos rfl]
    rfl
  | case3 depth n c rest hc hd ih => rw [blockComment, if_pos hc, if_neg hd, Nat.add_right_comm, ih]
  | case4 depth n c rest hc hc' ih => rw [blockComment, if_neg hc, if_pos hc', Nat.add_right_comm, ih]
  | case5 depth n c rest hc hc' ih => rw [blockComment, if_neg hc, if_neg hc', ih]

lemma blockComment_blank (hw : Text.isBlank w = true) (nested : Bool) (depth n : ℕ) (u : List Char) :
    blockComment nested depth n (w :: u) = blockComment nested depth (n + 1) u := by
  have hslash : w ≠ '/' := by
    rintro rfl
    exact absurd hw (by decide)
  simp [blockComment, isBlank_ne hw (c := '*') (by decide), hslash]

lemma blockComment_insert (hw : Text.isBlank w = true) (hs : Text.isBlank s = true)
    (h : n + q.length < (blockComment nested depth n (q ++ w :: u)).length) :
    blockComment nested depth n (q ++ w :: s :: u) = (blockComment nested depth n (q ++ w :: u)).later := by
  have hhead : ∀ c, c ∈ ['*', '/'] → w ≠ c := by
    rintro c hc rfl
    simp only [List.mem_cons, List.not_mem_nil, or_false] at hc
    rcases hc with rfl | rfl <;> exact absurd hw (by decide)
  fun_induction blockComment nested depth n q with
  | case1 n =>
    simp only [List.nil_append, blockComment_blank hw, blockComment_blank hs]
    rw [blockComment_succ]
  | case2 n c rest hc =>
    obtain ⟨rest, rfl⟩ := List.head?_eq_some_iff.mp hc.2
    rw [List.cons_append, blockComment, if_pos ⟨hc.1, rfl⟩, if_pos rfl, length, List.length_cons, List.length_cons] at h
    omega
  | case3 depth n c rest hc hd ih =>
    obtain ⟨rest, rfl⟩ := List.head?_eq_some_iff.mp hc.2
    simp only [List.cons_append, blockComment, List.head?_cons, hc.1, and_self, if_true, hd, if_false,
      List.tail_cons, List.length_cons] at h ih ⊢
    exact ih (by omega)
  | case4 depth n c rest hc hc' ih =>
    obtain ⟨rest, rfl⟩ := List.head?_eq_some_iff.mp hc'.2.2
    simp only [List.cons_append, blockComment, List.head?_cons, hc'.1, hc'.2.1, List.tail_cons,
      List.length_cons] at h ih ⊢
    exact ih (by simp at h ⊢; omega)
  | case5 depth n c rest hc hc' ih =>
    have hc₁ : ∀ t, ¬ (c = '*' ∧ (rest ++ w :: t).head? = some '/') := by
      cases rest with
      | nil => simp [hhead '/' (by decide)]
      | cons e rest => simpa using hc
    have hc₂ : ∀ t, ¬ (nested = true ∧ c = '/' ∧ (rest ++ w :: t).head? = some '*') := by
      cases rest with
      | nil => simp [hhead '*' (by decide)]
      | cons e rest => simpa using hc'
    rw [List.length_cons] at h
    rw [List.cons_append, blockComment, if_neg (hc₁ _), if_neg (hc₂ _)] at h ⊢
    rw [List.cons_append, blockComment, if_neg (hc₁ _), if_neg (hc₂ _)]
    exact ih (by omega)

end Extent

lemma blockComment_drop_insert (nested : Bool) (hw : Text.isBlank w = true) (hs : Text.isBlank s = true)
    (hb : l.opensBlockComment (c :: (q ++ w :: u)) = true)
    (hlt : q.length < (Extent.blockComment nested 0 1 ((q ++ w :: u).drop 1)).length) :
    l.opensBlockComment (c :: (q ++ w :: s :: u)) = true ∧
      Extent.blockComment nested 0 1 ((q ++ w :: s :: u).drop 1) =
        (Extent.blockComment nested 0 1 ((q ++ w :: u).drop 1)).later := by
  obtain ⟨hpresent, rfl, v, hv⟩ := slash_of_opensBlockComment hb
  cases q with
  | nil =>
    rw [(List.cons.inj hv).1] at hw
    exact absurd hw (by decide)
  | cons e q =>
    obtain rfl := (List.cons.inj hv).1
    refine ⟨by simp [Language.opensBlockComment, hpresent], ?_⟩
    rw [List.length_cons] at hlt
    exact Extent.blockComment_insert hw hs (by simpa [Nat.add_comm] using hlt)

lemma IsRead.comment_insert (hl : l ∈ Language.builtin) (hw : Text.isBlank w = true) (hs : isSpace s = true)
    (h : IsRead l lineStart ⟨.comment, q ++ w :: q'⟩ behind) :
    IsRead l lineStart ⟨.comment, q ++ w :: s :: q'⟩ behind := by
  have hsb := isBlank_of_isSpace hs
  obtain ⟨c, u, htext, hread⟩ := h
  dsimp only at htext hread
  obtain ⟨hc, hread⟩ := read_eq_comment hread
  cases q with
  | nil =>
    rw [(List.cons.inj htext).1, hc] at hw
    exact absurd hw (by decide)
  | cons e q =>
    rw [List.cons_append] at htext
    obtain ⟨rfl, rfl⟩ := List.cons.inj htext
    rw [List.append_assoc, List.cons_append] at hread
    have he := exchange_blank hl hw (e :: q) (q' ++ behind) (s :: (q' ++ behind))
    refine ⟨e, q ++ w :: s :: q', rfl, ?_⟩
    rw [List.append_assoc, List.cons_append, List.cons_append]
    rcases hread with ⟨hline, hlen⟩ | ⟨hline, hblock, hsettle⟩
    · rw [he.opensLineComment_append hl] at hline
      have hwhole : (q ++ w :: (q' ++ behind)).takeWhile (· ≠ '\n') = q ++ w :: q' := by
        have hq : q ++ w :: q' <+: q ++ w :: (q' ++ behind) := ⟨behind, by simp⟩
        exact (List.prefix_of_prefix_length_le (List.takeWhile_prefix _) hq hlen.ge).eq_of_length hlen.symm
      have hall : ∀ x ∈ q ++ [w], decide (x ≠ '\n') = true := fun x hx => by
        refine List.mem_takeWhile_imp (p := (· ≠ '\n')) (l := q ++ w :: (q' ++ behind)) ?_
        rw [hwhole]
        exact List.mem_append.mpr ((List.mem_append.mp hx).imp_right fun hx => by simp_all)
      have hsf : decide (s ≠ '\n') = true := decide_eq_true (ne_of_isSpace hs)
      rw [read_of_lineComment hc hline, List.append_cons, List.takeWhile_append_of_pos hall,
        List.takeWhile_cons_of_pos (p := (· ≠ '\n')) hsf]
      rw [List.append_cons q w (q' ++ behind), List.takeWhile_append_of_pos hall] at hlen
      simp only [List.length_append, List.length_cons] at hlen ⊢
      congr 2
      omega
    · rw [he.opensLineComment_append hl] at hline
      obtain ⟨hblock, hlater⟩ := blockComment_drop_insert (l.blockComments = .nested) hw hsb hblock
        (by rw [Extent.length_of_settle hsettle, List.length_append, List.length_cons]; omega)
      rw [read_of_blockComment hline hblock, hlater, Extent.settle_later, hsettle]
      simp [Except.map]
      omega

/-! ### Insertion -/

lemma exchange_comment (hl : l ∈ Language.builtin) (hw : Text.isBlank w = true)
    (h : l.opensLineComment (c :: (q ++ w :: u)) = true ∨ l.opensBlockComment (c :: (q ++ w :: u)) = true)
    (t : List Char) : Exchange l t (c :: (q ++ w :: u)) (c :: (q ++ w :: s :: u)) where
  nonempty := List.cons_ne_nil _ _
  breaking x hx := Option.some.inj hx ▸ (breaks_of_comment hl h).1
  breaking' x hx := Option.some.inj hx ▸ (breaks_of_comment hl h).1
  lineFeed hx := .inr hx
  lineComment hx := .inr (.inr (by
    rwa [(exchange_blank hl hw (c :: q) u (s :: u)).opensLineComment_append hl] at hx))
  marks := .inl rfl

lemma keepExpressions_comment (hl : l ∈ Language.builtin)
    (h : l.opensLineComment (c :: u) = true ∨ l.opensBlockComment (c :: u) = true) (ss : List Segment)
    (t : List Char) : KeepExpressions l ss [] (c :: u) (c :: t) := by
  refine .of_head? ?_ ss []
  have hc := (breaks_of_comment hl h).2
  simp only [List.mem_cons, List.not_mem_nil, or_false] at hc
  rcases hc with rfl | rfl <;> rfl

lemma keepExpressions_blank (hs : isSpace s = true) (w : Char) (u : List Char) (ss : List Segment) :
    KeepExpressions l ss [] (w :: u) (w :: s :: u) := by
  refine .of_head? ?_ ss []
  by_cases hw : isSpace w = true
  · rw [List.dropWhile_cons_of_pos hw, List.dropWhile_cons_of_pos hw, List.dropWhile_cons_of_pos hs]
  · rw [List.dropWhile_cons_of_neg hw, List.dropWhile_cons_of_neg hw]
    rfl

lemma exists_split {a b e p t : List Char} (h : a ++ (b ++ e) = p ++ w :: t) (h₁ : a.length ≤ p.length)
    (h₂ : p.length < a.length + b.length) : ∃ q q', p = a ++ q ∧ b = q ++ w :: q' ∧ t = q' ++ e := by
  obtain ⟨q, rfl⟩ : a <+: p :=
    List.prefix_of_prefix_length_le (List.prefix_append a _) (h ▸ List.prefix_append p _) h₁
  rw [List.append_assoc, List.append_cancel_left_eq] at h
  rw [List.length_append] at h₂
  obtain ⟨q', rfl⟩ : q ++ [w] <+: b :=
    List.prefix_of_prefix_length_le ⟨t, by simp [h]⟩ (List.prefix_append b e) (by simp; omega)
  refine ⟨q, q', rfl, by simp, ?_⟩
  simpa using h.symm

lemma lineStartAfter_insert (role : Role) (hs : isSpace s = true) (lineStart : Bool) (q q' : List Char) :
    (⟨role, q ++ w :: s :: q'⟩ : Segment).lineStartAfter lineStart =
      (⟨role, q ++ w :: q'⟩ : Segment).lineStartAfter lineStart := by
  simp [Segment.lineStartAfter, Segment.isToken, (ne_of_isSpace hs).symm]

/-- The character number `place` of a text is a blank between tokens or belongs to a comment. -/
def Cut.Skips (l : Language) (k : Cut) (place : ℕ) : Prop :=
  (∃ before s behind, k.segments = before ++ s :: behind ∧ s.isToken = false ∧
    (textOf before).length ≤ place ∧ place < (textOf before).length + s.text.length) ∨
  l.opensBlockComment k.unread = true ∧ (textOf k.segments).length ≤ place

lemma sameKeys_openComment (hl : l ∈ Language.builtin) (hw : Text.isBlank w = true) (hs : Text.isBlank s = true)
    {f : Failure} (h : read l lineStart c (q ++ w :: u) = .error f)
    (hb : l.opensBlockComment (c :: (q ++ w :: u)) = true) (norm : Normalization) :
    (cutOnto l [] lineStart (c :: (q ++ w :: u))).SameKeys norm
      (cutOnto l [] lineStart (c :: (q ++ w :: s :: u))) := by
  have he := exchange_blank hl hw (c :: q) u (s :: u)
  have hline : l.opensLineComment (c :: (q ++ w :: u)) = false := by
    cases hline : l.opensLineComment (c :: (q ++ w :: u)) with
    | false => rfl
    | true =>
      rw [read_of_lineComment (by rw [(slash_of_opensBlockComment hb).2.1]; decide) hline] at h
      simp at h
  have hfail := h
  rw [read_of_blockComment hline hb] at hfail
  cases hx : Extent.blockComment (l.blockComments = .nested) 0 1 ((q ++ w :: u).drop 1) with
  | closed m =>
    rw [hx] at hfail
    exact absurd hfail (by simp [Extent.settle, Except.map])
  | unclosed m =>
    have hm := Extent.blockComment_eq_unclosed hx
    obtain ⟨hb', hlater⟩ := blockComment_drop_insert (l.blockComments = .nested) hw hs hb (by
      rw [hx, Extent.length, hm]
      simp
      omega)
    have hread : read l lineStart c (q ++ w :: s :: u) = .error f := by
      rw [he.opensLineComment_append hl] at hline
      rw [read_of_blockComment hline hb', hlater, Extent.settle_later]
      rw [Success.map_eq_error] at hfail
      rw [hfail]
      rfl
    rw [cutOnto, cutOnto, h, hread]
    exact ⟨rfl, rfl⟩

lemma sameKeys_skipped (hl : l ∈ Language.builtin) (hw : Text.isBlank w = true) (hs : isSpace s = true)
    {role : Role} {before : List Segment} (hrole : (⟨role, q ++ w :: q'⟩ : Segment).isToken = false)
    (hread : AreRead l lineStart before (q ++ w :: (q' ++ behind)))
    (hseg : IsRead l (flagAfter lineStart before) ⟨role, q ++ w :: q'⟩ behind) (norm : Normalization) :
    (cutOnto l [] lineStart (textOf before ++ (q ++ w :: (q' ++ behind)))).SameKeys norm
      (cutOnto l [] lineStart (textOf before ++ (q ++ w :: s :: (q' ++ behind)))) := by
  have hsb := isBlank_of_isSpace hs
  cases role with
  | token kind image reach => simp [Segment.isToken] at hrole
  | blank =>
    obtain ⟨c, u, htext, hr⟩ := hseg
    dsimp only at htext hr
    obtain ⟨-, hu⟩ := read_eq_blank hr
    obtain rfl := List.length_eq_zero_iff.mp hu
    cases q with
    | cons e q => simp at htext
    | nil =>
      obtain ⟨rfl, rfl⟩ := List.cons.inj htext
      refine sameKeys_exchange hl hread (exchange_blank hl hw _ _ _) (keepExpressions_blank hs _ _ _) ?_
      have hread' : AreRead l (flagAfter lineStart before) [⟨.blank, [w]⟩, ⟨.blank, [s]⟩] ([] ++ behind) :=
        ⟨(areRead_blank hw _ _).1, areRead_blank hsb _ _⟩
      refine sameKeys_of_areRead (areRead_blank hw _ _) hread' ?_ rfl
      simp [Segment.lineStartAfter, Segment.isToken, (ne_of_isSpace hs).symm]
  | comment =>
    have hinsert := hseg.comment_insert hl hw hs
    obtain ⟨c, u, htext, hr⟩ := id hseg
    dsimp only at htext hr
    obtain ⟨hc, hopen⟩ := read_eq_comment hr
    replace hopen : l.opensLineComment (c :: (u ++ behind)) = true ∨ l.opensBlockComment (c :: (u ++ behind)) = true :=
      hopen.imp (·.1) (·.2.1)
    cases q with
    | nil =>
      rw [(List.cons.inj htext).1, hc] at hw
      exact absurd hw (by decide)
    | cons e q =>
      rw [List.cons_append] at htext
      obtain ⟨rfl, rfl⟩ := List.cons.inj htext
      rw [List.append_assoc, List.cons_append] at hopen
      refine sameKeys_exchange hl hread (exchange_comment hl hw hopen _) (keepExpressions_comment hl hopen _ _) ?_
      have := sameKeys_of_areRead (n := norm) (areRead_singleton.mpr hseg) (areRead_singleton.mpr hinsert)
        (lineStartAfter_insert .comment hs _ _ _).symm rfl
      simpa using this

lemma sameKeys_insert (hl : l ∈ Language.builtin) (hw : Text.isBlank w = true) (hs : isSpace s = true)
    {p : List Char} (h : (cut l (p ++ w :: u)).Skips l p.length) (norm : Normalization) :
    (cut l (p ++ w :: u)).SameKeys norm (cut l (p ++ w :: s :: u)) := by
  have hsb := isBlank_of_isSpace hs
  have hcut := isCut_cut hl (p ++ w :: u)
  change (cutOnto l [] true (p ++ w :: u)).SameKeys norm (cutOnto l [] true (p ++ w :: s :: u))
  generalize cut l (p ++ w :: u) = k at h hcut
  obtain ⟨htext, hread, hstop⟩ := hcut
  rcases h with ⟨before, ⟨role, text⟩, following, hsegments, hrole, hle, hlt⟩ | ⟨hb, hle⟩
  · rw [hsegments] at htext hread
    rw [textOf_append, textOf_cons, List.append_assoc, List.append_assoc] at htext
    obtain ⟨q, q', rfl, hseg, rfl⟩ := exists_split htext hle hlt
    dsimp only at hseg
    subst hseg
    rw [areRead_append, textOf_cons, List.append_assoc] at hread
    simp only [List.append_assoc, List.cons_append] at hread ⊢
    exact sameKeys_skipped hl hw hs hrole hread.1 hread.2.1 norm
  · -- The comment is never closed, and that is an error with both texts.
    obtain ⟨q, q', rfl, hunread, rfl⟩ := exists_split (e := []) (by rw [List.append_nil, htext]) hle (by
      have := congrArg List.length htext
      simp only [List.length_append, List.length_cons] at this
      omega)
    rcases hstop with ⟨-, hnil⟩ | ⟨f, c, v, -, hcons, hfail⟩
    · simp [hnil] at hunread
    · rw [hcons] at hunread hb hread
      cases q with
      | nil =>
        rw [(List.cons.inj hunread).1, read_blank l _ hw] at hfail
        exact absurd hfail (by simp)
      | cons e q =>
        rw [List.cons_append] at hunread
        obtain ⟨rfl, rfl⟩ := List.cons.inj hunread
        simp only [List.append_nil, List.append_assoc, List.cons_append]
        exact sameKeys_exchange hl hread (exchange_comment hl hw (.inr hb) _) (keepExpressions_comment hl (.inr hb) _ _)
          (sameKeys_openComment hl hw hsb hfail hb norm)

end Source

open Source

variable {l : Language} {w s : Char}

/-- A space or a tab behind a blank between tokens, or behind a blank in a comment, leaves the keys of the tokens
and the outcome as they are. -/
theorem Language.tokenize_insert_blank (hl : l ∈ Language.builtin) (hw : Text.isBlank w = true)
    (hs : s = ' ' ∨ s = '\t') (before behind : List Char)
    (h : (cut l (dropByteOrderMark (before ++ w :: behind))).Skips l (dropByteOrderMark before).length)
    (file : ℕ) (n : Normalization) :
    (l.tokenize (String.ofList (before ++ w :: behind)) file n).Agrees
      (l.tokenize (String.ofList (before ++ w :: s :: behind)) file n) := by
  have hmark : ∀ t : List Char, (w :: t).head? ≠ some '\uFEFF' := by
    rintro t ht
    rw [Option.some.inj ht] at hw
    exact absurd hw (by decide)
  refine agrees_tokenize ?_ file file
  rw [String.toList_ofList, String.toList_ofList, dropByteOrderMark_append before (hmark _),
    dropByteOrderMark_append before (hmark _)]
  rw [dropByteOrderMark_append before (hmark _)] at h
  exact sameKeys_insert hl hw (by rcases hs with rfl | rfl <;> rfl) h n

set_option maxRecDepth 20000 in
theorem Language.tokenize_insert_blank_rust :
    Language.rust ∈ Language.builtin ∧ Text.isBlank ' ' = true ∧
      (cut .rust (dropByteOrderMark ("(/*".toList ++ ' ' :: "a */ x".toList))).Skips .rust
        (dropByteOrderMark "(/*".toList).length ∧
      Language.rust.tokenize (String.ofList ("(/*".toList ++ ' ' :: "a */ x".toList)) 0 {} =
        ⟨[⟨.operator, some "(", 0, ⟨1, 1⟩, ⟨1, 1⟩⟩, ⟨.identifier, some "x", 0, ⟨1, 10⟩, ⟨1, 10⟩⟩], none⟩ ∧
      (Language.rust.tokenize (String.ofList ("(/*".toList ++ ' ' :: "a */ x".toList)) 0 {}).Agrees
        (Language.rust.tokenize (String.ofList ("(/*".toList ++ ' ' :: '\t' :: "a */ x".toList)) 0 {}) := by
  have hskips : (cut .rust (dropByteOrderMark ("(/*".toList ++ ' ' :: "a */ x".toList))).Skips .rust
      (dropByteOrderMark "(/*".toList).length :=
    .inl ⟨[⟨.token .operator ['('] 1, ['(']⟩], ⟨.comment, "/* a */".toList⟩,
      [⟨.blank, [' ']⟩, ⟨.token .identifier ['x'] 1, ['x']⟩], by cbv, rfl, by decide, by decide⟩
  exact ⟨by decide +kernel, by decide, hskips, by cbv,
    tokenize_insert_blank (by decide +kernel) (by decide) (.inr rfl) _ _ hskips 0 {}⟩

end CodeClones
