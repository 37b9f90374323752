import CodeClones.Proofs.Locality.Directives

/-! Scans of a text whose lines end with a line feed, and of the same text with a carriage return in front of each line
feed. Side by side they read the same part of the text. -/

namespace CodeClones.Source

variable {l : Language} {c opening closing : Char} {u v text mark : List Char} {n n' k k' depth : ℕ} {d d' : Draft}
  {spaced : Bool}

def withReturns (text : List Char) : List Char := text.flatMap fun c => if c = '\n' then ['\r', '\n'] else [c]

@[simp] lemma withReturns_nil : withReturns [] = [] := rfl

@[simp] lemma withReturns_lineFeed (text : List Char) : withReturns ('\n' :: text) = '\r' :: '\n' :: withReturns text :=
  rfl

lemma withReturns_cons (hc : c ≠ '\n') (text : List Char) : withReturns (c :: text) = c :: withReturns text := by
  simp [withReturns, hc]

@[simp] lemma withReturns_append (u v : List Char) : withReturns (u ++ v) = withReturns u ++ withReturns v :=
  List.flatMap_append

lemma withReturns_eq_self (hu : '\n' ∉ u) : withReturns u = u := by
  induction u with
  | nil => rfl
  | cons c u ih =>
    rw [List.mem_cons, not_or] at hu
    rw [withReturns_cons (Ne.symm hu.1), ih hu.2]

lemma head?_withReturns (hr : c ≠ '\r') (hc : c ≠ '\n') :
    (withReturns text).head? = some c ↔ text.head? = some c := by
  cases text with
  | nil => rfl
  | cons x text =>
    by_cases hx : x = '\n'
    · subst hx
      simp [hr.symm, hc.symm]
    · rw [withReturns_cons hx, List.head?_cons, List.head?_cons]

lemma head?_withReturns_ne (text : List Char) : (withReturns text).head? ≠ some '\n' := by
  cases text with
  | nil => simp
  | cons c text =>
    by_cases hc : c = '\n'
    · simp [hc]
    · simpa [withReturns_cons hc] using hc

lemma mem_withReturns {x : Char} (h : x ∈ withReturns text) : x = '\r' ∨ x ∈ text := by
  obtain ⟨c, hc, hx⟩ := List.mem_flatMap.mp h
  split at hx
  · next hf =>
    subst hf
    simp only [List.mem_cons, List.not_mem_nil, or_false] at hx
    rcases hx with rfl | rfl
    · exact .inl rfl
    · exact .inr hc
  · rw [List.mem_singleton.mp hx]
    exact .inr hc

def IsUnquoted (text : List Char) : Prop := ∀ x ∈ text, x ∉ ['"', '\'', '\x60']

lemma IsUnquoted.not_quote (h : IsUnquoted (c :: text)) (hl : l ∈ Language.builtin) :
    l.quotes.contains c = false := by
  refine Bool.eq_false_iff.mpr fun hq => h c List.mem_cons_self ?_
  rcases quotes_of_builtin hl (List.contains_iff_mem.mp hq) with rfl | rfl <;> decide

def IsBare (text : List Char) : Prop := ∀ c ∈ text, c ∉ ['\r', '"', '\'', '\x60']

namespace IsBare

lemma append_iff : IsBare (u ++ v) ↔ IsBare u ∧ IsBare v := List.forall_mem_append

lemma tail (h : IsBare (c :: text)) : IsBare text := (List.forall_mem_cons.mp h).2

lemma ne (h : IsBare (c :: text)) : c ≠ '\r' ∧ c ≠ '"' ∧ c ≠ '\'' ∧ c ≠ '\x60' := by
  simpa using (List.forall_mem_cons.mp h).1

lemma isDirectiveQuote (h : IsBare (c :: text)) : isDirectiveQuote c = false := by
  simp [Source.isDirectiveQuote, h.ne]

lemma isUnquoted (h : IsBare text) : IsUnquoted text := fun x hx hq => h x hx (List.mem_cons_of_mem _ hq)

lemma isUnquoted_withReturns (h : IsBare text) : IsUnquoted (withReturns text) := fun x hx hq => by
  rcases mem_withReturns hx with rfl | hx
  · exact absurd hq (by decide)
  · exact h.isUnquoted x hx hq

end IsBare

/-! ### Parts of a text -/

/-- One scan has read up to its character number `k`, and another one, of the text with carriage returns, up to its
character number `k'` behind the same part. -/
def Meets (text : List Char) (n k n' k' : ℕ) : Prop :=
  ∃ body behind, text = body ++ behind ∧ k = n + body.length ∧ k' = n' + (withReturns body).length

namespace Meets

lemma refl (text : List Char) (n n' : ℕ) : Meets text n n n' n' := ⟨[], text, rfl, rfl, rfl⟩

lemma of_append (h : Meets v (n + u.length) k (n' + (withReturns u).length) k') : Meets (u ++ v) n k n' k' := by
  obtain ⟨body, behind, rfl, rfl, rfl⟩ := h
  refine ⟨u ++ body, behind, (List.append_assoc ..).symm, ?_, ?_⟩
  · rw [List.length_append, Nat.add_assoc]
  · rw [withReturns_append, List.length_append, Nat.add_assoc]

lemma cons (hc : c ≠ '\n') (h : Meets text (n + 1) k (n' + 1) k') : Meets (c :: text) n k n' k' :=
  of_append (u := [c]) (by rwa [withReturns_cons hc])

lemma single (hc : c ≠ '\n') (text : List Char) (n n' : ℕ) : Meets (c :: text) n (n + 1) n' (n' + 1) :=
  cons hc (refl text _ _)

end Meets

def Reaches (text : List Char) (n k n' k' : ℕ) : Prop :=
  Meets text n k n' k' ∨
    ∃ body behind, text = body ++ '\n' :: behind ∧ k = n + body.length ∧ k' = n' + (withReturns body).length + 1

namespace Reaches

lemma of_append (h : Reaches v (n + u.length) k (n' + (withReturns u).length) k') : Reaches (u ++ v) n k n' k' := by
  rcases h with h | ⟨body, behind, rfl, rfl, rfl⟩
  · exact .inl h.of_append
  · refine .inr ⟨u ++ body, behind, (List.append_assoc ..).symm, ?_, ?_⟩
    · rw [List.length_append, Nat.add_assoc]
    · rw [withReturns_append, List.length_append, Nat.add_assoc n']

lemma cons (hc : c ≠ '\n') (h : Reaches text (n + 1) k (n' + 1) k') : Reaches (c :: text) n k n' k' :=
  of_append (u := [c]) (by rwa [withReturns_cons hc])

lemma lineEnd (text : List Char) (n n' : ℕ) : Reaches ('\n' :: text) n n n' (n' + 1) :=
  .inr ⟨[], text, rfl, rfl, rfl⟩

end Reaches

/-! ### Comments and brackets -/

/-- Both lengths reach up to the end of the same part, or both scans fail where they begin. -/
def LengthsMeet (text : List Char) (n n' : ℕ) : Except Failure ℕ → Except Failure ℕ → Prop
  | .ok k, .ok k' => Meets text n k n' k'
  | .error f, .error f' => f' = f ∧ f.offset = 0
  | _, _ => False

namespace LengthsMeet

variable {x y : Except Failure ℕ}

lemma of_append (h : LengthsMeet v (n + u.length) (n' + (withReturns u).length) x y) :
    LengthsMeet (u ++ v) n n' x y := by
  cases x with
  | ok k =>
    cases y with
    | ok k' => exact Meets.of_append h
    | error f' => exact h
  | error f =>
    cases y with
    | ok k' => exact h
    | error f' => exact h

lemma cons (hc : c ≠ '\n') (h : LengthsMeet text (n + 1) (n' + 1) x y) : LengthsMeet (c :: text) n n' x y :=
  of_append (u := [c]) (by rwa [withReturns_cons hc])

lemma lineFeed (h : LengthsMeet text (n + 1) (n' + 2) x y) : LengthsMeet ('\n' :: text) n n' x y :=
  of_append (u := ['\n']) h

lemma unclosed (n n' : ℕ) (strict : Bool) (fault : Fault) :
    LengthsMeet [] n n' ((Extent.unclosed n).settle strict fault) ((Extent.unclosed n').settle strict fault) := by
  cases strict with
  | true => exact ⟨rfl, rfl⟩
  | false => exact Meets.refl [] n n'

end LengthsMeet

lemma meet_blockComment (nested : Bool) (depth n n' : ℕ) (strict : Bool) (fault : Fault) (text : List Char) :
    LengthsMeet text n n' ((Extent.blockComment nested depth n text).settle strict fault)
      ((Extent.blockComment nested depth n' (withReturns text)).settle strict fault) := by
  fun_induction Extent.blockComment nested depth n text generalizing n' with
  | case1 depth n =>
    rw [withReturns_nil, Extent.blockComment]
    exact .unclosed n n' strict fault
  | case2 n c rest h =>
    obtain ⟨rest, rfl⟩ := List.head?_eq_some_iff.mp h.2
    rw [h.1, withReturns_cons (by decide), withReturns_cons (by decide), Extent.blockComment, if_pos ⟨rfl, rfl⟩,
      if_pos rfl]
    exact Meets.cons (by decide) (.single (by decide) rest _ _)
  | case3 depth n c rest h hd ih =>
    obtain ⟨rest, rfl⟩ := List.head?_eq_some_iff.mp h.2
    rw [h.1, withReturns_cons (by decide), withReturns_cons (by decide), Extent.blockComment, if_pos ⟨rfl, rfl⟩,
      if_neg hd]
    exact .cons (by decide) (.cons (by decide) (ih (n' + 2)))
  | case4 depth n c rest h h' ih =>
    obtain ⟨hn, rfl, hrest⟩ := h'
    obtain ⟨rest, rfl⟩ := List.head?_eq_some_iff.mp hrest
    rw [withReturns_cons (by decide), withReturns_cons (by decide), Extent.blockComment, if_neg (by simp),
      if_pos ⟨hn, rfl, rfl⟩]
    exact .cons (by decide) (.cons (by decide) (ih (n' + 2)))
  | case5 depth n c rest h h' ih =>
    by_cases hc : c = '\n'
    · subst hc
      rw [withReturns_lineFeed, Extent.blockComment, if_neg (by simp), if_neg (by simp), Extent.blockComment,
        if_neg (by simp), if_neg (by simp)]
      exact .lineFeed (ih (n' + 2))
    · rw [withReturns_cons hc, Extent.blockComment, if_neg, if_neg]
      · exact .cons hc (ih (n' + 1))
      · rwa [head?_withReturns (by decide) (by decide)]
      · rwa [head?_withReturns (by decide) (by decide)]

lemma balancedLength_cons (hq : l.quotes.contains c = false) (opening closing : Char) (depth n : ℕ)
    (text : List Char) : balancedLength l opening closing depth n (c :: text) =
      if c = opening then balancedLength l opening closing (depth + 1) (n + 1) text
      else if c = closing then
        if depth ≤ 1 then .ok (n + 1) else balancedLength l opening closing (depth - 1) (n + 1) text
      else balancedLength l opening closing depth (n + 1) text := by
  rw [balancedLength, if_neg (Bool.eq_false_iff.mp hq)]

lemma balancedLength_blank (hl : l ∈ Language.builtin) (ho : Text.isBlank opening = false)
    (hc : Text.isBlank closing = false) (hb : Text.isBlank c = true) (depth n : ℕ) (text : List Char) :
    balancedLength l opening closing depth n (c :: text) = balancedLength l opening closing depth (n + 1) text := by
  have hne : ∀ {x}, Text.isBlank x = false → c ≠ x := by
    rintro x hx rfl
    exact absurd (hb.symm.trans hx) (by decide)
  have hq : l.quotes.contains c = false := Bool.eq_false_iff.mpr fun hq => hne (isBlank_of_quote hl hq) rfl
  rw [balancedLength_cons hq, if_neg (hne ho), if_neg (hne hc)]

lemma meet_balancedLength (hl : l ∈ Language.builtin) (ho : Text.isBlank opening = false)
    (hc : Text.isBlank closing = false) (hs : IsBare text) (depth n n' : ℕ) :
    LengthsMeet text n n' (balancedLength l opening closing depth n text)
      (balancedLength l opening closing depth n' (withReturns text)) := by
  induction text generalizing depth n n' with
  | nil =>
    rw [withReturns_nil, balancedLength, balancedLength]
    exact .unclosed n n' l.strict .openMetadata
  | cons c rest ih =>
    by_cases hf : c = '\n'
    · subst hf
      rw [withReturns_lineFeed, balancedLength_blank hl ho hc (by decide), balancedLength_blank hl ho hc (by decide),
        balancedLength_blank hl ho hc (by decide)]
      exact .lineFeed (ih hs.tail _ _ _)
    · rw [withReturns_cons hf, balancedLength_cons (hs.isUnquoted.not_quote hl),
        balancedLength_cons (hs.isUnquoted.not_quote hl)]
      split_ifs
      · exact .cons hf (ih hs.tail _ _ _)
      · exact Meets.single hf rest n n'
      · exact .cons hf (ih hs.tail _ _ _)
      · exact .cons hf (ih hs.tail _ _ _)

/-! ### Directives -/

structure Draft.Reaches (text : List Char) (d d' e e' : Draft) : Prop where
  reversed : e'.reversed = e.reversed
  reaches : Source.Reaches text d.more e.more d'.more e'.more

namespace Draft.Reaches

variable {e e' : Draft}

lemma refl (hd : d'.reversed = d.reversed) (text : List Char) : Draft.Reaches text d d' d d' :=
  ⟨hd, .inl (.refl text _ _)⟩

lemma skip (h : Draft.Reaches v (d.skip u.length) (d'.skip (withReturns u).length) e e') :
    Draft.Reaches (u ++ v) d d' e e' :=
  ⟨h.reversed, .of_append h.reaches⟩

lemma keep (hc : c ≠ '\n') (h : Draft.Reaches text (d.keep spaced c) (d'.keep spaced c) e e') :
    Draft.Reaches (c :: text) d d' e e' :=
  ⟨h.reversed, .cons hc h.reaches⟩

lemma skipLineEnd (hd : d'.reversed = d.reversed) (text : List Char) :
    Draft.Reaches ('\n' :: text) d d' d (d'.skip 1) :=
  ⟨hd, .lineEnd text _ _⟩

end Draft.Reaches

lemma Draft.reversed_keep (hd : d'.reversed = d.reversed) (spaced : Bool) (c : Char) :
    (d'.keep spaced c).reversed = (d.keep spaced c).reversed := by
  simp only [Draft.keep, hd]

lemma isPrefixOf_withReturns (hm : mark.any Text.isBlank = false) (text : List Char) :
    mark.isPrefixOf (withReturns text) = mark.isPrefixOf text := by
  induction mark generalizing text with
  | nil => simp
  | cons x mark ih =>
    obtain ⟨hx, hm⟩ := Bool.or_eq_false_iff.mp (List.any_cons.symm.trans hm)
    cases text with
    | nil => rfl
    | cons c text =>
      by_cases hc : c = '\n'
      · have hne : ∀ {y}, Text.isBlank y = true → (x == y) = false := by
          rintro y hy
          refine Bool.eq_false_iff.mpr fun he => ?_
          rw [beq_iff_eq.mp he, hy] at hx
          exact absurd hx (by decide)
        subst hc
        rw [withReturns_lineFeed, List.isPrefixOf_cons_cons, List.isPrefixOf_cons_cons, hne (by decide),
          hne (by decide)]
        rfl
      · rw [withReturns_cons hc, List.isPrefixOf_cons_cons, List.isPrefixOf_cons_cons, ih hm]

lemma opensLineComment_withReturns (hl : l ∈ Language.builtin) (text : List Char) :
    l.opensLineComment (withReturns text) = l.opensLineComment text := by
  rw [Language.opensLineComment, Language.opensLineComment]
  rcases (comments_of_builtin hl).1 with hc | hc | hc <;> rw [hc]
  · exact isPrefixOf_withReturns (by decide) text
  · exact isPrefixOf_withReturns (by decide) text

lemma isPrefixOf_cons_withReturns (hm : mark.any Text.isBlank = false) (hc : c ≠ '\n') (text : List Char) :
    mark.isPrefixOf (c :: withReturns text) = mark.isPrefixOf (c :: text) := by
  rw [← withReturns_cons hc, isPrefixOf_withReturns hm]

lemma continues_iff (hs : IsBare text) : 0 < continuationLength text ↔ ∃ rest, text = '\n' :: rest := by
  cases text with
  | nil => simp [continuationLength]
  | cons c rest =>
    by_cases hc : c = '\n'
    · exact iff_of_true (hc ▸ Nat.one_pos) ⟨rest, by rw [hc]⟩
    · simp [continuationLength, hc, hs.ne.1]

lemma continues_withReturns (hs : IsBare text) :
    0 < continuationLength (withReturns text) ↔ 0 < continuationLength text := by
  cases text with
  | nil => rfl
  | cons c rest =>
    by_cases hc : c = '\n'
    · subst hc
      exact iff_of_true (by simp [continuationLength]) Nat.one_pos
    · rw [withReturns_cons hc]
      simp [continuationLength, hc, hs.ne.1]

lemma reaches_preprocessorLine (hs : IsBare text) (hd : d'.reversed = d.reversed) :
    Draft.Reaches text d d' (preprocessorLine spaced d text) (preprocessorLine spaced d' (withReturns text)) := by
  fun_induction preprocessorLine spaced d text generalizing d' with
  | case1 spaced d =>
    rw [withReturns_nil, preprocessorLine]
    exact .refl hd []
  | case2 spaced d c rest h =>
    by_cases hc : c = '\n'
    · subst hc
      rw [withReturns_lineFeed, preprocessorLine, if_neg (by simp), if_neg (by simp), if_pos (by decide),
        preprocessorLine, if_pos (.inl rfl)]
      exact .skipLineEnd hd rest
    · rw [← isPrefixOf_cons_withReturns (by decide) hc] at h
      rw [withReturns_cons hc, preprocessorLine, if_pos h]
      exact .refl hd _
  | case3 spaced d c rest h h' ih =>
    obtain ⟨rfl, hpos⟩ := h'
    obtain ⟨rest, rfl⟩ := (continues_iff hs.tail).mp hpos
    rw [withReturns_cons (by decide), withReturns_lineFeed, preprocessorLine, if_neg (by simp),
      if_pos (by simp [continuationLength])]
    exact .skip (u := ['\\', '\n']) (ih hs.tail.tail hd)
  | case4 spaced d c rest h h' h'' ih =>
    have hc := (not_or.mp h).1
    rw [← isPrefixOf_cons_withReturns (by decide) hc] at h
    rw [← continues_withReturns hs.tail] at h'
    rw [withReturns_cons hc, preprocessorLine, if_neg h, if_neg h', if_pos h'']
    exact .skip (u := [c]) (by rw [withReturns_cons hc]; exact ih hs.tail hd)
  | case5 spaced d c rest h h' h'' ih =>
    have hc := (not_or.mp h).1
    rw [← isPrefixOf_cons_withReturns (by decide) hc] at h
    rw [← continues_withReturns hs.tail] at h'
    rw [withReturns_cons hc, preprocessorLine, if_neg h, if_neg h', if_neg h'']
    exact .keep hc (ih hs.tail (Draft.reversed_keep hd spaced c))

lemma statement_return (hl : l ∈ Language.builtin) (depth : ℕ) (spaced : Bool) (d : Draft) (text : List Char) :
    statement l depth spaced d ('\r' :: text) = statement l depth true (d.skip 1) text := by
  rw [statement, if_neg, if_neg (by simp), if_pos (by decide)]
  rw [opensLineComment_blank hl (by decide)]
  simp

lemma not_infix_tail {part : List Char} (hk : n + 1 ≤ k) (h : ¬ part <:+: (c :: text).take (k - n)) :
    ¬ part <:+: text.take (k - (n + 1)) := by
  obtain ⟨m, rfl⟩ := Nat.exists_eq_add_of_le hk
  rw [show n + 1 + m - n = m + 1 by omega, List.take_succ_cons] at h
  rw [Nat.add_sub_cancel_left]
  exact fun hi => h (List.infix_cons hi)

lemma reaches_statement (hl : l ∈ Language.builtin) (hs : IsBare text) (hd : d'.reversed = d.reversed)
    (h : ¬ ['\\', '\n'] <:+: text.take ((statement l depth spaced d text).more - d.more)) :
    Draft.Reaches text d d' (statement l depth spaced d text) (statement l depth spaced d' (withReturns text)) := by
  have hle : ∀ depth spaced d s, d.more ≤ (statement l depth spaced d s).more := fun depth spaced d s =>
    (takes_statement l depth spaced d s).le.1
  fun_induction statement l depth spaced d text generalizing d' with
  | case1 depth spaced d =>
    rw [withReturns_nil, statement]
    exact .refl hd []
  | case2 depth spaced d c rest hstop =>
    by_cases hc : c = '\n'
    · subst hc
      rw [withReturns_lineFeed, statement_return hl, statement, if_pos ⟨hstop.1, .inl rfl⟩]
      exact .skipLineEnd hd rest
    · rw [← opensLineComment_withReturns hl, withReturns_cons hc] at hstop
      rw [withReturns_cons hc, statement, if_pos hstop]
      exact .refl hd _
  | case3 depth spaced d c rest hstop hb ih =>
    obtain ⟨rest, rfl⟩ := List.head?_eq_some_iff.mp hb.2
    -- The statement would take the backslash together with the line feed.
    obtain ⟨m, hm⟩ := Nat.exists_eq_add_of_le (hle depth true (d.skip 2) rest)
    rw [Draft.more_skip] at hm
    rw [List.tail_cons, hm, hb.1, show d.more + 2 + m - d.more = m + 1 + 1 by omega, List.take_succ_cons,
      List.take_succ_cons] at h
    exact absurd (List.prefix_append ['\\', '\n'] _).isInfix h
  | case4 depth spaced d c rest hstop hb hblank ih =>
    have htake := not_infix_tail (hle depth true (d.skip 1) rest) h
    by_cases hc : c = '\n'
    · subst hc
      rw [withReturns_lineFeed, statement_return hl, statement, if_neg, if_neg (by simp), if_pos (by decide)]
      · exact .skip (u := ['\n']) (ih hs.tail hd htake)
      · exact fun hstop' => hstop ⟨hstop'.1, .inl rfl⟩
    · rw [← opensLineComment_withReturns hl, withReturns_cons hc] at hstop
      rw [withReturns_cons hc, statement, if_neg hstop, if_neg, if_pos hblank]
      · exact .skip (u := [c]) (by rw [withReturns_cons hc]; exact ih hs.tail hd htake)
      · rintro ⟨rfl, -⟩
        exact absurd hblank (by decide)
  | case5 depth spaced d c rest hstop hb hblank hend =>
    have hc : c ≠ '\n' := hend.1 ▸ by decide
    rw [← opensLineComment_withReturns hl, withReturns_cons hc] at hstop
    rw [withReturns_cons hc, statement, if_neg hstop, if_neg, if_neg hblank, if_pos hend]
    · exact .keep hc (.refl (Draft.reversed_keep hd spaced c) rest)
    · rintro ⟨rfl, -⟩
      exact absurd hend.1 (by decide)
  | case6 depth spaced d c rest hstop hb hblank hend hquote =>
    exact absurd hquote (by rw [hs.isDirectiveQuote]; decide)
  | case7 depth spaced d c rest hstop hb hblank hend hquote ih =>
    have hc : c ≠ '\n' := by
      rintro rfl
      exact hblank (by decide)
    rw [← opensLineComment_withReturns hl, withReturns_cons hc] at hstop
    rw [withReturns_cons hc, statement, if_neg hstop, if_neg, if_neg hblank, if_neg hend, if_neg hquote]
    · exact .keep hc (ih hs.tail (Draft.reversed_keep hd spaced c)
        (not_infix_tail (hle (depthAfter depth c) false (d.keep spaced c) rest) h))
    · exact fun hb' => head?_withReturns_ne rest hb'.2

end CodeClones.Source
