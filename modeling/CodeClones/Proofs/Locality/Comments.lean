import Mathlib
import CodeClones.Proofs.Locality.Segments
import CodeClones.Proofs.Source.Trivia

/-! Comments do not matter: a comment counts as a space, outside directives and metadata. -/

namespace CodeClones

namespace Source

variable {l : Language} {lineStart : Bool} {c : Char} {n k : ℕ} {a b u w z z' : List Char} {nested : Bool}
  {r : Reading}

def IsPlain (a : List Char) : Prop := ∀ c ∈ a, c ∉ ['"', '\'', '\x60', '\\', '/', '*']

instance (a : List Char) : Decidable (IsPlain a) := List.decidableBAll _ a

/-- What a block comment may consist of so that its last mark is the first one that closes it. -/
structure IsCommentBody (l : Language) (w : List Char) : Prop where
  line : '\n' ∉ w
  closing : ¬ ['*', '/'] <:+: w
  opening : ¬ ['/', '*'] <:+: w
  last : l.blockComments = .nested → w.getLast? ≠ some '/'

/-- The place is inside a directive or inside metadata, which may be unfinished. -/
def Cut.Encloses (k : Cut) (place : ℕ) : Prop :=
  (∃ before s behind image reach, k.segments = before ++ s :: behind ∧
    (s.role = .token .directive image reach ∨ s.role = .token .metadata image reach) ∧
    (textOf before).length < place ∧ place < (textOf before).length + s.text.length) ∨
  ∃ f, k.failure = some f ∧ (textOf k.segments).length < place ∧ ∀ c, f.fault ≠ .unexpected c

/-! ### Comments -/

lemma Extent.blockComment_body (hc : ¬ ['*', '/'] <:+: w) (ho : ¬ ['/', '*'] <:+: w)
    (hlast : nested = true → w.getLast? ≠ some '/') (n : ℕ) (b : List Char) :
    blockComment nested 0 n (w ++ '*' :: '/' :: b) = .closed (n + w.length + 2) := by
  induction w generalizing n with
  | nil => simp [blockComment]
  | cons c w ih =>
    have htail : w <:+: c :: w := (List.suffix_cons c w).isInfix
    have hclose : ¬ (c = '*' ∧ (w ++ '*' :: '/' :: b).head? = some '/') := by
      rintro ⟨rfl, hhead⟩
      cases w with
      | nil => simp at hhead
      | cons e w =>
        obtain rfl := Option.some.inj hhead
        exact hc ⟨[], w, rfl⟩
    have hopen : ¬ (nested = true ∧ c = '/' ∧ (w ++ '*' :: '/' :: b).head? = some '*') := by
      rintro ⟨hnested, rfl, hhead⟩
      cases w with
      | nil => exact hlast hnested rfl
      | cons e w =>
        obtain rfl := Option.some.inj hhead
        exact ho ⟨[], w, rfl⟩
    rw [List.cons_append, blockComment, if_neg hclose, if_neg hopen,
      ih (fun h => hc (h.trans htail)) (fun h => ho (h.trans htail)) (fun hnested h => hlast hnested ?_),
      List.length_cons]
    · congr 1
      omega
    · cases w with
      | nil => simp at h
      | cons e w => rwa [List.getLast?_cons_cons]

lemma isRead_blockComment (hline : l.lineComment = some ['/', '/']) (hblock : l.blockComments ≠ .absent)
    (h : IsCommentBody l w) (lineStart : Bool) (b : List Char) :
    IsRead l lineStart ⟨.comment, '/' :: '*' :: (w ++ ['*', '/'])⟩ b := by
  refine ⟨'/', '*' :: (w ++ ['*', '/']), rfl, ?_⟩
  have htext : '*' :: (w ++ ['*', '/']) ++ b = '*' :: (w ++ '*' :: '/' :: b) := by simp
  rw [htext, read_of_blockComment (by rw [Language.opensLineComment, hline]; rfl)
    (by simp [Language.opensBlockComment, hblock]), List.drop_one, List.tail_cons,
    Extent.blockComment_body h.closing h.opening (by simpa using h.last)]
  simp [Extent.settle, Except.map]
  omega

lemma isRead_lineComment (hline : l.lineComment = some ['/', '/']) (hw : '\n' ∉ w) (lineStart : Bool)
    (b : List Char) : IsRead l lineStart ⟨.comment, '/' :: '/' :: w⟩ ('\n' :: b) := by
  refine ⟨'/', '/' :: w, rfl, ?_⟩
  have hall : ∀ x ∈ '/' :: w, decide (x ≠ '\n') = true := by
    intro x hx
    rcases List.mem_cons.mp hx with rfl | hx
    · decide
    · simpa using fun he : x = '\n' => hw (he ▸ hx)
  rw [read_of_lineComment isBlank_slash (by simp [Language.opensLineComment, hline]),
    List.takeWhile_append_of_pos hall]
  simp

/-! ### What reaches over the place of a comment -/

section Plain

variable (hl : l ∈ Language.builtin) (hz : Breaking l z) (hu : IsPlain (c :: u))

lemma IsPlain.ne (ha : IsPlain a) (hc : c ∈ a) :
    c ≠ '"' ∧ c ≠ '\'' ∧ c ≠ '\x60' ∧ c ≠ '\\' ∧ c ≠ '/' ∧ c ≠ '*' := by
  simpa using ha c hc

lemma IsPlain.markedLiteral?_append (hl : l ∈ Language.builtin) (hz : Breaking l z) (hu : IsPlain u)
    (word : String) (n : ℕ) : markedLiteral? l word n (u ++ z) = none := by
  cases u with
  | nil => exact markedLiteral?_of_breaking hl hz word n
  | cons q u =>
    have hq := hu.ne (List.mem_cons_self)
    have hraw : (if l.rawStringMarks.contains word then rawStringExtent? (q :: (u ++ z)) else none) = none := by
      split
      · next hw =>
        have hmarks : ∀ x, Breaks l x → decide (x = '#') = false := fun x hx => by
          simpa using fun he : x = '#' => not_breaks_sign hl hw (he ▸ hx)
        rw [← List.cons_append, rawStringExtent?, hz.takeWhile_append hmarks]
        refine if_neg fun hhead => ?_
        rw [List.drop_append_of_le_length (length_takeWhile_le _ _), hz.head?_append (by decide)] at hhead
        exact (hu.ne (List.mem_of_mem_drop (List.mem_of_head? hhead))).1 rfl
      · rfl
    have hquote : l.quotes.contains q = false := by
      cases hquote : l.quotes.contains q with
      | false => rfl
      | true =>
        rcases quotes_of_builtin hl (List.contains_iff_mem.mp hquote) with h | h
        · exact absurd h hq.1
        · exact absurd h hq.2.1
    rw [List.cons_append]
    simp only [markedLiteral?, hraw, hquote, hq.2.1, Bool.and_false, decide_false, Bool.false_eq_true, if_false]

include hl hz hu

lemma role_of_lt_more (hc : Text.isBlank c = false) (h : readToken l lineStart c (u ++ z) = .ok r)
    (hr : u.length < r.more) : ∃ image reach,
      r.role = .token .directive image reach ∨ r.role = .token .metadata image reach := by
  obtain ⟨hdouble, hsingle, hgrave, -⟩ := hu.ne List.mem_cons_self
  have hplain : ∀ {kind k}, (.ok (.plain kind c (u ++ z) k) : Except Failure Reading) = .ok r → ¬ k ≤ u.length := by
    rintro kind k hk hle
    rw [← Except.ok.inj hk] at hr
    exact absurd hle (Nat.not_le.mpr hr)
  revert h
  refine readToken_cases (P := fun x => x = .ok r → _) ?preprocessorLine ?metadata ?verbatimString ?word ?number ?string
    ?otherLiteral ?operator
  case preprocessorLine =>
    rintro r' hr' ⟨⟩
    obtain ⟨-, ⟨⟩⟩ := Option.ite_none_right_eq_some.mp hr'
    exact ⟨_, _, .inl rfl⟩
  case metadata =>
    intro x hx h
    obtain ⟨length, -, rfl⟩ := Option.map_eq_some_iff.mp hx
    obtain ⟨k, -, rfl⟩ := Success.map_eq_ok.mp h
    exact ⟨_, _, .inr rfl⟩
  case verbatimString =>
    intro x hx h
    obtain ⟨-, hx⟩ := Option.ite_none_right_eq_some.mp hx
    rw [hz.verbatimMark?_append] at hx
    obtain ⟨⟨marks, verbatim⟩, hmark, -⟩ := Option.map_eq_some_iff.mp hx
    obtain ⟨behind, hbehind, -⟩ := verbatimMark?_eq_some hmark
    have hmem : '"' ∈ u := by
      rw [hbehind]
      simp
    exact absurd rfl (hu.ne (List.mem_cons_of_mem c hmem)).1
  case word =>
    intro x hx h
    obtain ⟨-, hx⟩ := Option.ite_none_right_eq_some.mp hx
    obtain rfl := Option.some.inj hx
    rw [hz.takeWhile_append fun x hx => hx.continuesWord] at h
    have hle := length_takeWhile_le l.continuesWord u
    have hdrop : IsPlain (u.drop (u.takeWhile l.continuesWord).length) := fun x hx =>
      hu x (List.mem_cons_of_mem c (List.mem_of_mem_drop hx))
    rw [List.drop_append_of_le_length hle, hdrop.markedLiteral?_append hl hz] at h
    dsimp only at h
    split at h
    · exact ⟨_, _, .inl (by rw [← Except.ok.inj h]; rfl)⟩
    · exact absurd hle (hplain h)
  case number =>
    intro r' hr' h
    rw [readNumber?_append hz] at hr'
    rw [← Except.ok.inj h] at hr
    exact absurd (describes_number (l := l) hc hr').more_le (Nat.not_le.mpr hr)
  case string =>
    intro x hx h
    obtain ⟨hquote, -⟩ := Option.ite_none_right_eq_some.mp hx
    rcases quotes_of_builtin hl (List.contains_iff_mem.mp hquote) with h | h
    · exact absurd h hdouble
    · exact absurd h hsingle
  case otherLiteral =>
    intro x hx h
    obtain ⟨d, hd, -⟩ := Option.map_eq_some_iff.mp hx
    have hquote : d.quote = c := by simpa using List.find?_some hd
    rcases (otherLiterals_of_builtin hl (List.mem_of_find?_eq_some hd)).1 with h | h <;> rw [hquote] at h
    · exact absurd h hsingle
    · exact absurd h hgrave
  case operator =>
    intro h
    rw [readOperator_append hz hl] at h
    have hle := accounts_operator hl hc u
    rw [h] at hle
    exact absurd (Reading.Describes.more_le hle) (Nat.not_le.mpr hr)

lemma role_of_read (hline : l.lineComment = some ['/', '/']) (h : read l lineStart c (u ++ z) = .ok r)
    (hr : u.length < r.more) : ∃ image reach,
    r.role = .token .directive image reach ∨ r.role = .token .metadata image reach := by
  have hslash := (hu.ne List.mem_cons_self).2.2.2.2.1
  rcases read_eq_ok h with ⟨-, rfl⟩ | ⟨hc, ⟨hopen, -⟩ | ⟨-, ⟨hopen, -⟩ | ⟨-, h⟩⟩⟩
  · exact absurd hr (Nat.not_lt_zero _)
  · rcases mark_of_opensLineComment hl hopen with ⟨h, -⟩ | ⟨-, h⟩
    · exact absurd h hslash
    · simp [hline] at h
  · exact absurd (slash_of_opensBlockComment hopen).2.1 hslash
  · exact role_of_lt_more hl hz hu hc h hr

end Plain

/-! ### Texts without comments -/

structure Replaces (l : Language) (norm : Normalization) (p z z' : List Char) : Prop where
  exchange : Exchange l p z z'
  slash : z.head? = some '/'
  sameKeys : ∀ lineStart, (cutOnto l [] lineStart z).SameKeys norm (cutOnto l [] lineStart z')

namespace Replaces

variable {norm : Normalization} {p : List Char} {ss : List Segment} {t : List Char}

lemma keepExpressions (h : Replaces l norm p z z') (ss : List Segment) (t : List Char) :
    KeepExpressions l ss t z z' := by
  intro ts us _ c u _ _ ho
  by_cases hspace : (u.drop (u.takeWhile l.continuesWord).length).dropWhile isSpace = []
  · -- A slash is no mark of an expression.
    obtain ⟨z, rfl⟩ := List.head?_eq_some_iff.mp h.slash
    rw [opensDirective_spaces l hspace] at ho
    exact absurd ho (by simp [opensDirective_eq, isSpace, expressionMarks])
  · rwa [opensDirective_append l hspace] at ho ⊢

lemma sameKeys_of_areRead (hl : l ∈ Language.builtin) (h : Replaces l norm (textOf ss) z z')
    (hs : AreRead l true ss z) : (cut l (textOf ss ++ z)).SameKeys norm (cut l (textOf ss ++ z')) :=
  sameKeys_exchange hl hs h.exchange (h.keepExpressions ss []) (h.sameKeys _)

lemma sameKeys_of_unexpected (hl : l ∈ Language.builtin) (h : Replaces l norm (textOf ss ++ c :: u) z z')
    (hs : AreRead l true ss (c :: u ++ z)) {f : Failure} (hr : read l (flagAfter true ss) c (u ++ z) = .error f)
    {x : Char} (hf : f.fault = .unexpected x) :
    (cut l (textOf ss ++ c :: u ++ z)).SameKeys norm (cut l (textOf ss ++ c :: u ++ z')) := by
  have hs' := hs.exchange hl h.exchange (h.keepExpressions ss _)
  have hr' := (settled_read hl h.exchange.of_append
    (h.keepExpressions [] (c :: u) [] [] rfl c u rfl) (flagAfter true ss)).unexpected f x hr hf
  rw [hr] at hr'
  rw [List.append_assoc, List.append_assoc]
  change (cutOnto l [] true _).SameKeys norm (cutOnto l [] true _)
  rw [cutOnto_textOf hs, cutOnto_textOf hs', List.cons_append, List.cons_append, cutOnto, cutOnto, hr, hr']
  exact ⟨rfl, rfl⟩

lemma sameKeys_cut (hl : l ∈ Language.builtin) (hline : l.lineComment = some ['/', '/']) (hp : IsPlain p)
    (h : Replaces l norm p z z') (he : ¬ (cut l (p ++ z)).Encloses p.length) :
    (cut l (p ++ z)).SameKeys norm (cut l (p ++ z')) := by
  have hcut := isCut_cut hl (p ++ z)
  suffices hsuff : ∀ k : Cut, IsCut l true (p ++ z) k → ¬ k.Encloses p.length →
      (cut l (p ++ z)).SameKeys norm (cut l (p ++ z')) from hsuff _ hcut he
  rintro k ⟨htext, hread, hstop⟩ he
  -- The comment begins inside a segment, or at the head of one, or where nothing can be read any more.
  by_cases hlt : p.length < (textOf k.segments).length
  · obtain ⟨before, s, following, hsegments, hle, hlt'⟩ := exists_segment_at hlt
    rw [hsegments, textOf_append, textOf_cons, List.append_assoc, List.append_assoc] at htext
    rw [hsegments, areRead_append, textOf_cons, List.append_assoc] at hread
    obtain ⟨t, rfl⟩ : textOf before <+: p :=
      List.prefix_of_prefix_length_le (List.prefix_append _ _) (htext ▸ List.prefix_append p z) hle
    rw [List.append_assoc, List.append_cancel_left_eq] at htext
    rw [htext] at hread
    cases t with
    | nil =>
      rw [List.append_nil] at h ⊢
      exact h.sameKeys_of_areRead hl hread.1
    | cons c u =>
      obtain ⟨d, v, hs, hr⟩ := hread.2.1
      rw [hs, List.cons_append, List.cons_append] at htext
      obtain ⟨rfl, hrest⟩ := List.cons.inj htext
      rw [hrest] at hr
      have hplain : IsPlain (d :: u) := fun x hx => hp x (List.mem_append_right _ hx)
      rw [List.length_append, List.length_cons, hs, List.length_cons] at hlt'
      have hlong : u.length < v.length := by omega
      obtain ⟨image, reach, hrole⟩ := role_of_read hl h.exchange.breaking hplain hline hr hlong
      refine absurd (.inl ⟨before, s, following, image, reach, hsegments, hrole, by simp, ?_⟩) he
      simp [hs]
      omega
  · obtain ⟨t, rfl⟩ : textOf k.segments <+: p :=
      List.prefix_of_prefix_length_le ⟨k.unread, htext⟩ (List.prefix_append p z) (Nat.le_of_not_lt hlt)
    rw [List.append_assoc, List.append_cancel_left_eq] at htext
    rw [htext] at hread
    cases t with
    | nil =>
      rw [List.append_nil] at h ⊢
      exact h.sameKeys_of_areRead hl hread
    | cons c u =>
      rcases hstop with ⟨-, hnil⟩ | ⟨f, d, v, hfailure, hunread, hr⟩
      · simp [hnil] at htext
      · rw [hunread, List.cons_append] at htext
        obtain ⟨rfl, rfl⟩ := List.cons.inj htext
        by_cases hf : ∃ x, f.fault = .unexpected x
        · obtain ⟨x, hf⟩ := hf
          exact h.sameKeys_of_unexpected hl hread hr hf
        · exact absurd (.inr ⟨f, hfailure, by simp, not_exists.mp hf⟩) he

end Replaces

lemma exchange_commentMark {p v : List Char} (hline : l.lineComment = some ['/', '/']) (hp : IsPlain p)
    (hc : Text.isBlank c = true) (hv : v.head? = some '/' → c = '\n') (b : List Char) :
    Exchange l p ('/' :: v) (c :: b) where
  nonempty := List.cons_ne_nil _ _
  breaking := by
    rintro x ⟨⟩
    exact .inr (.inl ⟨rfl, hline⟩)
  breaking' := by
    rintro x ⟨⟩
    exact .inl hc
  lineFeed h := absurd h (by simp)
  lineComment h := by
    rw [Language.opensLineComment, hline] at h
    obtain ⟨u, hu⟩ := List.isPrefixOf_iff_prefix.mp h
    rw [hv (by rw [← (List.cons.inj hu).2]; rfl)]
    exact .inr (.inl rfl)
  marks := by
    refine .inr ⟨?_, fun _ _ _ => ⟨fun h => (hp.ne h).2.2.2.2.1 rfl, fun h => (hp.ne h).2.2.2.1 rfl⟩⟩
    rintro ⟨⟩
    exact absurd hc (by decide)

lemma replaces_blockComment (hline : l.lineComment = some ['/', '/'])
    (hblock : l.blockComments ≠ .absent) (hw : IsCommentBody l w) {p : List Char} (hp : IsPlain p)
    (norm : Normalization) (b : List Char) :
    Replaces l norm p ('/' :: '*' :: (w ++ '*' :: '/' :: b)) (' ' :: b) where
  exchange := exchange_commentMark hline hp (by decide) (by simp) b
  slash := rfl
  sameKeys lineStart := by
    have hcomment : AreRead l lineStart [⟨.comment, '/' :: '*' :: (w ++ ['*', '/'])⟩] b :=
      areRead_singleton.mpr (isRead_blockComment hline hblock hw lineStart b)
    have := Source.sameKeys_of_areRead (n := norm) hcomment (areRead_blank (c := ' ') (by decide) lineStart b)
      (by simp [Segment.lineStartAfter, Segment.isToken, hw.line]) rfl
    simpa using this

lemma replaces_lineComment (hline : l.lineComment = some ['/', '/']) (hw : '\n' ∉ w) {p : List Char} (hp : IsPlain p)
    (norm : Normalization) (b : List Char) : Replaces l norm p ('/' :: '/' :: (w ++ '\n' :: b)) ('\n' :: b) where
  exchange := exchange_commentMark hline hp (by decide) (fun _ => rfl) b
  slash := rfl
  sameKeys lineStart := by
    have hcomment : AreRead l lineStart [⟨.comment, '/' :: '/' :: w⟩] ('\n' :: b) :=
      areRead_singleton.mpr (isRead_lineComment hline hw lineStart b)
    have hnone : AreRead l lineStart [] ('\n' :: b) := trivial
    have := Source.sameKeys_of_areRead (n := norm) hcomment hnone
      (by simp [Segment.lineStartAfter, Segment.isToken, hw]) rfl
    simpa using this

end Source

open Source

variable {l : Language} {before : List Char}

/-- A comment that begins outside directives and metadata counts as a space, or as nothing if its line ends with it.
A block comment in a language where these nest must not end with a slash: it would open another one. -/
theorem Language.tokenize_comment (hl : l ∈ Language.builtin) (hline : l.lineComment = some ['/', '/'])
    (hblock : l.blockComments ≠ .absent) (hbefore : IsPlain before) (behind : List Char) (file : ℕ)
    (n : Normalization) :
    (∀ w, IsCommentBody l w →
      ¬ (cut l (dropByteOrderMark (before ++ '/' :: '*' :: (w ++ '*' :: '/' :: behind)))).Encloses
        (dropByteOrderMark before).length →
      (l.tokenize (String.ofList (before ++ '/' :: '*' :: (w ++ '*' :: '/' :: behind))) file n).Agrees
        (l.tokenize (String.ofList (before ++ ' ' :: behind)) file n)) ∧
    (∀ w, '\n' ∉ w →
      ¬ (cut l (dropByteOrderMark (before ++ '/' :: '/' :: (w ++ '\n' :: behind)))).Encloses
        (dropByteOrderMark before).length →
      (l.tokenize (String.ofList (before ++ '/' :: '/' :: (w ++ '\n' :: behind))) file n).Agrees
        (l.tokenize (String.ofList (before ++ '\n' :: behind)) file n)) := by
  have hplain : IsPlain (dropByteOrderMark before) := fun c hc =>
    hbefore c ((dropByteOrderMark_suffix before).subset hc)
  have hagrees : ∀ z z', z'.head? ≠ some '\uFEFF' → Replaces l n (dropByteOrderMark before) z z' →
      ¬ (cut l (dropByteOrderMark (before ++ z))).Encloses (dropByteOrderMark before).length →
      (l.tokenize (String.ofList (before ++ z)) file n).Agrees (l.tokenize (String.ofList (before ++ z')) file n) := by
    intro z z' hz' h he
    have hz : z.head? ≠ some '\uFEFF' := by
      rw [h.slash]
      decide
    refine agrees_tokenize ?_ file file
    rw [String.toList_ofList, String.toList_ofList, dropByteOrderMark_append before hz,
      dropByteOrderMark_append before hz']
    rw [dropByteOrderMark_append before hz] at he
    exact h.sameKeys_cut hl hline hplain he
  refine ⟨fun w hw he => hagrees _ _ (by simp) ?_ he, fun w hw he => hagrees _ _ (by simp) ?_ he⟩
  · exact replaces_blockComment hline hblock hw hplain n behind
  · exact replaces_lineComment hline hw hplain n behind

lemma Source.Cut.not_encloses {k : Cut} (hs : ∀ s ∈ k.segments, ∀ image reach,
    s.role ≠ .token .directive image reach ∧ s.role ≠ .token .metadata image reach) (hf : k.failure = none)
    (place : ℕ) : ¬ k.Encloses place := by
  rintro (⟨before, s, behind, image, reach, hsegments, hrole, -⟩ | ⟨f, hfailure, -⟩)
  · have h := hs s (by simp [hsegments]) image reach
    exact hrole.elim h.1 h.2
  · simp [hf] at hfailure

set_option maxRecDepth 20000 in
theorem Language.tokenize_comment_rust :
    (Language.rust ∈ Language.builtin ∧ Language.rust.lineComment = some ['/', '/'] ∧
      Language.rust.blockComments ≠ .absent ∧ IsPlain "x".toList) ∧
    (Language.rust.tokenize (String.ofList ("x".toList ++ '/' :: '*' :: ("c".toList ++ '*' :: '/' :: "y".toList))) 0
      {}).Agrees (Language.rust.tokenize (String.ofList ("x".toList ++ ' ' :: "y".toList)) 0 {}) ∧
    (Language.rust.tokenize (String.ofList ("x".toList ++ '/' :: '/' :: ("c".toList ++ '\n' :: "y".toList))) 0
      {}).Agrees (Language.rust.tokenize (String.ofList ("x".toList ++ '\n' :: "y".toList)) 0 {}) := by
  have hmem : Language.rust ∈ Language.builtin := by decide +kernel
  have hplain : IsPlain "x".toList := by decide
  have hblock : cut .rust (dropByteOrderMark ("x".toList ++ '/' :: '*' :: ("c".toList ++ '*' :: '/' :: "y".toList))) =
      ⟨[⟨.token .identifier ['x'] 1, ['x']⟩, ⟨.comment, "/*c*/".toList⟩,
        ⟨.token .identifier ['y'] 1, ['y']⟩], [], none⟩ := by
    cbv
  have hline : cut .rust (dropByteOrderMark ("x".toList ++ '/' :: '/' :: ("c".toList ++ '\n' :: "y".toList))) =
      ⟨[⟨.token .identifier ['x'] 1, ['x']⟩, ⟨.comment, "//c".toList⟩, ⟨.blank, ['\n']⟩,
        ⟨.token .identifier ['y'] 1, ['y']⟩], [], none⟩ := by
    cbv
  have h := tokenize_comment hmem rfl (by decide) hplain "y".toList 0 {}
  refine ⟨⟨hmem, rfl, by decide, hplain⟩, h.1 _ ⟨by decide, by decide, by decide, by decide⟩ ?_, h.2 _ (by decide) ?_⟩
  · rw [hblock]
    exact Cut.not_encloses (by simp) rfl _
  · rw [hline]
    exact Cut.not_encloses (by simp) rfl _

set_option maxRecDepth 20000 in
/-- A comment that ends with a slash opens another one where comments nest, and a comment in a directive shows in its
image. -/
theorem Language.comment_changes_keys :
    (IsPlain "x".toList ∧ IsPlain " y".toList ∧ '\n' ∉ "/".toList ∧ ¬ ['*', '/'] <:+: "/".toList ∧
      ¬ ['/', '*'] <:+: "/".toList ∧
      (Language.rust.tokenize
        (String.ofList ("x".toList ++ '/' :: '*' :: ("/".toList ++ '*' :: '/' :: " y".toList)))
        0 {}).tokens.map Token.key ≠
        (Language.rust.tokenize (String.ofList ("x".toList ++ ' ' :: " y".toList)) 0 {}).tokens.map Token.key) ∧
    (IsPlain "import (a".toList ∧ IsPlain ")".toList ∧ '\n' ∉ "c".toList ∧ ¬ ['*', '/'] <:+: "c".toList ∧
      ¬ ['/', '*'] <:+: "c".toList ∧
      (Language.go.tokenize
        (String.ofList ("import (a".toList ++ '/' :: '*' :: ("c".toList ++ '*' :: '/' :: ")".toList)))
        0 {}).tokens.map Token.key ≠
        (Language.go.tokenize (String.ofList ("import (a".toList ++ ' ' :: ")".toList)) 0 {}).tokens.map
          Token.key) := by
  have hx : (Language.rust.tokenize
      (String.ofList ("x".toList ++ '/' :: '*' :: ("/".toList ++ '*' :: '/' :: " y".toList))) 0 {}).tokens.map
        Token.key = [⟨.identifier, some "x"⟩] := by
    cbv
  have hxy : (Language.rust.tokenize (String.ofList ("x".toList ++ ' ' :: " y".toList)) 0 {}).tokens.map Token.key =
      [⟨.identifier, some "x"⟩, ⟨.identifier, some "y"⟩] := by
    cbv
  have hcomment : (Language.go.tokenize
      (String.ofList ("import (a".toList ++ '/' :: '*' :: ("c".toList ++ '*' :: '/' :: ")".toList))) 0 {}).tokens.map
        Token.key = [⟨.directive, some "import (a/*c*/)"⟩] := by
    cbv
  have hspace : (Language.go.tokenize (String.ofList ("import (a".toList ++ ' ' :: ")".toList)) 0 {}).tokens.map
      Token.key = [⟨.directive, some "import (a )"⟩] := by
    cbv
  rw [hx, hxy, hcomment, hspace]
  decide

end CodeClones
