import CodeClones.Proofs.Locality.Extents

/-! Directives and metadata that end in front of a place are not changed when the text behind the place is. -/

namespace CodeClones.Source

variable {l : Language} {c quote : Char} {n reach depth k : ℕ} {s u z z' : List Char} {d : Draft}
  {spaced : Bool}

@[simp] lemma Draft.more_skip (d : Draft) (n : ℕ) : (d.skip n).more = d.more + n := rfl

@[simp] lemma Draft.more_keep (d : Draft) (spaced : Bool) (c : Char) : (d.keep spaced c).more = d.more + 1 := rfl

@[simp] lemma Draft.more_keepText (d : Draft) (s : List Char) (reach : ℕ) :
    (d.keepText s reach).more = d.more + s.length := rfl

lemma Exchange.head?_eq_of_endsLine (h : Exchange l ('\\' :: u) z z') (hl : l ∈ Language.builtin)
    (he : EndsLine l z) (hz : z.head? ≠ some '\n') : z.head? = z'.head? := by
  obtain ⟨x, hx⟩ : ∃ x, z.head? = some x := by
    obtain ⟨x, z, rfl⟩ := List.exists_cons_of_ne_nil h.nonempty
    exact ⟨x, rfl⟩
  have hdark : Text.isBlank x = false := by
    have hmem := he.head?_mem hl hx
    simp only [List.mem_cons, List.not_mem_nil, or_false] at hmem
    rcases hmem with rfl | rfl | rfl
    · exact absurd hx hz
    · decide
    · decide
  exact h.marks.resolve_right fun hm => (hm.2 x hx hdark).2 List.mem_cons_self

/-! ### Preprocessor lines -/

lemma preprocessorLine_of_endsLine (hl : l.lineComment = some ['/', '/']) (h : EndsLine l s) :
    preprocessorLine spaced d s = d := by
  cases s with
  | nil => rw [preprocessorLine]
  | cons c s =>
    rw [preprocessorLine, if_pos]
    rcases h with h | h | h
    · exact absurd h (List.cons_ne_nil c s)
    · exact .inl (Option.some.inj h)
    · exact .inr (by rwa [Language.opensLineComment, hl] at h)

lemma endsLine_of_preprocessorLine (hl : l.lineComment = some ['/', '/'])
    (h : (preprocessorLine spaced d z).more ≤ d.more) : EndsLine l z := by
  have hle : ∀ spaced d s, d.more ≤ (preprocessorLine spaced d s).more := fun spaced d s =>
    (takes_preprocessorLine hl spaced d s).le.1
  cases z with
  | nil => exact .inl rfl
  | cons c z =>
    rw [preprocessorLine] at h
    split_ifs at h with hstop hc hb
    · rcases hstop with rfl | hstop
      · exact .inr (.inl rfl)
      · exact .inr (.inr (by rwa [Language.opensLineComment, hl]))
    · have := hle true (d.skip (1 + continuationLength z)) (z.drop (continuationLength z))
      rw [Draft.more_skip] at this
      omega
    · have := hle true (d.skip 1) z
      rw [Draft.more_skip] at this
      omega
    · have := hle false (d.keep spaced c) z
      rw [Draft.more_keep] at this
      omega

lemma continuationLength_pos : 0 < continuationLength s ↔ s.head? = some '\n' ∨ s.head? = some '\r' := by
  rw [continuationLength.eq_def]
  split
  · exact iff_of_true Nat.one_pos (.inl rfl)
  · exact iff_of_true (by omega) (.inr rfl)
  · next hn hr =>
    cases s with
    | nil => simp
    | cons c s =>
      refine iff_of_false (Nat.lt_irrefl 0) ?_
      rintro (hc | hc)
      · exact hn s (by rw [Option.some.inj hc])
      · exact hr s (by rw [Option.some.inj hc])

lemma continuationLength_append (h : Exchange l ('\\' :: u) z z') (hl : l ∈ Language.builtin)
    (hn : continuationLength (u ++ z) ≤ u.length) (hu : u = [] → EndsLine l z) :
    continuationLength (u ++ z') = continuationLength (u ++ z) := by
  cases u with
  | nil =>
    rw [List.nil_append, List.length_nil] at hn
    have hz : ¬ 0 < continuationLength z := by omega
    have hhead := hz
    rw [continuationLength_pos, not_or] at hhead
    have hz' : ¬ 0 < continuationLength z' := by
      rwa [continuationLength_pos, not_or, ← h.head?_eq_of_endsLine hl (hu rfl) hhead.1]
    rw [List.nil_append, List.nil_append]
    omega
  | cons e u =>
    by_cases hr : e = '\r'
    · subst hr
      cases u with
      | nil =>
        obtain ⟨x, z, rfl⟩ := List.exists_cons_of_ne_nil h.nonempty
        simp [continuationLength] at hn
      | cons e u => simp [continuationLength]
    · by_cases hf : e = '\n'
      · subst hf
        rfl
      · simp [continuationLength, hr, hf]

lemma continued_preprocessorLine (hl : l ∈ Language.builtin) (hp : l.lineComment = some ['/', '/'])
    (h : Exchange l ('\\' :: u) z z')
    (hn : (preprocessorLine spaced d ('\\' :: (u ++ z))).more ≤ d.more + (u.length + 1)) :
    continuationLength (u ++ z') = continuationLength (u ++ z) ∧ continuationLength (u ++ z) ≤ u.length := by
  rw [preprocessorLine, if_neg (by simp [List.isPrefixOf_cons_cons])] at hn
  split_ifs at hn with hc hb
  · have hle := (takes_preprocessorLine hp true (d.skip (1 + continuationLength (u ++ z)))
      ((u ++ z).drop (continuationLength (u ++ z)))).le.1
    rw [Draft.more_skip] at hle
    refine ⟨continuationLength_append h hl (by omega) ?_, by omega⟩
    rintro rfl
    rw [List.length_nil] at hn
    omega
  · exact absurd hb (by decide)
  · rw [not_and, Nat.not_lt, Nat.le_zero] at hc
    have hzero := hc rfl
    refine ⟨continuationLength_append h hl (by omega) ?_, by omega⟩
    rintro rfl
    exact endsLine_of_preprocessorLine hp hn

lemma preprocessorLine_append (hl : l ∈ Language.builtin) (hp : l.lineComment = some ['/', '/'])
    (h : Exchange l u z z') (hn : (preprocessorLine spaced d (u ++ z)).more ≤ d.more + u.length) :
    preprocessorLine spaced d (u ++ z') = preprocessorLine spaced d (u ++ z) := by
  induction hm : u.length using Nat.strongRecOn generalizing u d spaced with
  | ind m ih =>
    cases u with
    | nil =>
      have he : EndsLine l z := endsLine_of_preprocessorLine hp hn
      rw [List.nil_append, List.nil_append, preprocessorLine_of_endsLine hp he,
        preprocessorLine_of_endsLine hp (h.endsLine he)]
    | cons c u =>
      have hcontinued : c = '\\' → continuationLength (u ++ z') = continuationLength (u ++ z) ∧
          continuationLength (u ++ z) ≤ u.length := by
        rintro rfl
        exact continued_preprocessorLine hl hp h hn
      have hiff : c = '\\' ∧ 0 < continuationLength (u ++ z') ↔ c = '\\' ∧ 0 < continuationLength (u ++ z) :=
        and_congr_right fun hc => by rw [(hcontinued hc).1]
      rw [List.length_cons] at hn hm
      rw [List.cons_append, preprocessorLine] at hn
      rw [List.cons_append, List.cons_append, preprocessorLine, preprocessorLine, ← h.slashes_append]
      simp only [hiff]
      split_ifs at hn ⊢ with hstop hc hb
      · rfl
      · obtain ⟨hk, hfit⟩ := hcontinued hc.1
        rw [hk, List.drop_append_of_le_length hfit, List.drop_append_of_le_length hfit]
        rw [List.drop_append_of_le_length hfit] at hn
        refine ih _ ?_ (h.tail.of_drop _) ?_ rfl <;> rw [List.length_drop]
        · omega
        · rw [Draft.more_skip]
          omega
      · exact ih u.length (by omega) h.tail (by rw [Draft.more_skip]; omega) rfl
      · exact ih u.length (by omega) h.tail (by rw [Draft.more_keep]; omega) rfl

/-! ### Statements -/

lemma quotedLength_cons (quote : Char) (n reach : ℕ) (c : Char) (s : List Char) :
    quotedLength quote n reach (c :: s) =
      if c = '\n' then (n, reach)
      else if c = '\\' then
        if s = [] ∨ s.head? = some '\n' then (n + 1, n + 1) else quotedLength quote (n + 2) (n + 1) s.tail
      else if c = quote then (n + 1, n + 1)
      else quotedLength quote (n + 1) (n + 1) s := by
  cases s <;> simp [quotedLength]

lemma le_quotedLength (quote : Char) (n reach : ℕ) (s : List Char) : n ≤ (quotedLength quote n reach s).1 := by
  fun_induction quotedLength quote n reach s <;> omega

lemma head?_of_quotedLength (hz : z ≠ []) (hn : (quotedLength quote n reach z).1 ≤ n) : z.head? = some '\n' := by
  obtain ⟨c, z, rfl⟩ := List.exists_cons_of_ne_nil hz
  have htwo := le_quotedLength quote (n + 2) (n + 1) z.tail
  have hone := le_quotedLength quote (n + 1) (n + 1) z
  rw [quotedLength_cons] at hn
  split_ifs at hn with hf hb he hq
  · rw [hf]
    rfl
  · exact absurd hn (Nat.not_succ_le_self n)
  · omega
  · exact absurd hn (Nat.not_succ_le_self n)
  · omega

lemma quotedLength_of_lineFeed (quote : Char) (n reach : ℕ) (hs : s = [] ∨ s.head? = some '\n') :
    quotedLength quote n reach s = (n, reach) := by
  rcases hs with rfl | hs
  · rfl
  · obtain ⟨s, rfl⟩ := List.head?_eq_some_iff.mp hs
    rw [quotedLength_cons, if_pos rfl]

lemma escaped_quotedLength (h : Exchange l u z z')
    (hn : (quotedLength quote n reach ('\\' :: (u ++ z))).1 ≤ n + (u.length + 1)) :
    u ++ z' = [] ∨ (u ++ z').head? = some '\n' ↔ u ++ z = [] ∨ (u ++ z).head? = some '\n' := by
  cases u with
  | cons e u => simp
  | nil =>
    have htwo := le_quotedLength quote (n + 2) (n + 1) z.tail
    rw [List.nil_append, quotedLength_cons, if_neg (by decide), if_pos rfl] at hn
    split_ifs at hn with hz
    · exact iff_of_true (h.lineFeed (hz.resolve_left h.nonempty)) hz
    · simp only [List.length_nil] at hn
      omega

lemma quotedLength_append (h : Exchange l u z z') (hn : (quotedLength quote n reach (u ++ z)).1 ≤ n + u.length) :
    quotedLength quote n reach (u ++ z') = quotedLength quote n reach (u ++ z) := by
  induction hm : u.length using Nat.strongRecOn generalizing u n reach with
  | ind m ih =>
    cases u with
    | nil =>
      have hz := head?_of_quotedLength h.nonempty hn
      rw [List.nil_append, List.nil_append, quotedLength_of_lineFeed _ _ _ (.inr hz),
        quotedLength_of_lineFeed _ _ _ (h.lineFeed hz)]
    | cons c u =>
      have hescaped : c = '\\' → (u ++ z' = [] ∨ (u ++ z').head? = some '\n' ↔
          u ++ z = [] ∨ (u ++ z).head? = some '\n') := by
        rintro rfl
        exact escaped_quotedLength h.tail hn
      rw [List.length_cons] at hn hm
      rw [List.cons_append, quotedLength_cons] at hn
      rw [List.cons_append, List.cons_append, quotedLength_cons, quotedLength_cons]
      by_cases hb : c = '\\'
      · simp only [hescaped hb]
        split_ifs at hn ⊢ with hf he
        · rfl
        · rfl
        · cases u with
          | nil =>
            have := le_quotedLength quote (n + 2) (n + 1) z.tail
            simp only [List.nil_append, List.length_nil] at hn
            omega
          | cons e u =>
            rw [List.length_cons] at hn hm
            exact ih u.length (by omega) h.tail.tail (hn.trans (by omega)) rfl
      · split_ifs at hn ⊢ with hf hq
        · rfl
        · rfl
        · exact ih u.length (by omega) h.tail (by omega) rfl

lemma statement_of_endsLine (h : EndsLine l s) (hs : s = [] ∨ depth = 0) : statement l depth spaced d s = d := by
  cases s with
  | nil => rw [statement]
  | cons c s =>
    rw [statement, if_pos]
    refine ⟨hs.resolve_left (List.cons_ne_nil c s), ?_⟩
    rcases h with h | h | h
    · exact absurd h (List.cons_ne_nil c s)
    · exact .inl (Option.some.inj h)
    · exact .inr h

lemma endsLine_of_statement (h : (statement l depth spaced d z).more ≤ d.more) :
    EndsLine l z ∧ (z = [] ∨ depth = 0) := by
  have hle : ∀ depth spaced d s, d.more ≤ (statement l depth spaced d s).more := fun depth spaced d s =>
    (takes_statement l depth spaced d s).le.1
  cases z with
  | nil => exact ⟨.inl rfl, .inl rfl⟩
  | cons c z =>
    rw [statement] at h
    split_ifs at h with hstop hc hb hend hquote
    · exact ⟨hstop.2.elim (fun hc => .inr (.inl (by rw [hc]; rfl))) fun hc => .inr (.inr hc), .inr hstop.1⟩
    · have := hle depth true (d.skip 2) z.tail
      rw [Draft.more_skip] at this
      omega
    · have := hle depth true (d.skip 1) z
      rw [Draft.more_skip] at this
      omega
    · rw [Draft.more_keep] at h
      omega
    · dsimp only at h
      have := hle depth false ((d.keep spaced c).keepText (z.take (quotedLength c 0 0 z).1)
        (quotedLength c 0 0 z).2) (z.drop (quotedLength c 0 0 z).1)
      rw [Draft.more_keepText, Draft.more_keep] at this
      omega
    · have := hle (depthAfter depth c) false (d.keep spaced c) z
      rw [Draft.more_keep] at this
      omega

lemma continued_statement (hl : l ∈ Language.builtin) (h : Exchange l ('\\' :: u) z z')
    (hn : (statement l depth spaced d ('\\' :: (u ++ z))).more ≤ d.more + (u.length + 1)) :
    (u ++ z').head? = some '\n' ↔ (u ++ z).head? = some '\n' := by
  cases u with
  | cons e u => rfl
  | nil =>
    rw [List.nil_append] at hn ⊢
    rw [statement, if_neg] at hn
    · split_ifs at hn with hz hb hend hquote
      · have := (takes_statement l depth true (d.skip 2) z.tail).le.1
        rw [Draft.more_skip] at this
        simp only [List.length_nil] at hn
        omega
      · exact absurd hb (by decide)
      · exact absurd hend.1 (by decide)
      · exact absurd hquote (by decide)
      · -- The statement stops behind the backslash, so the line ends there with both texts.
        have hz : z.head? ≠ some '\n' := fun hz' => hz ⟨rfl, hz'⟩
        rw [List.nil_append, ← h.head?_eq_of_endsLine hl (endsLine_of_statement hn).1 hz]
    · rintro ⟨-, hc | hc⟩
      · exact absurd hc (by decide)
      · rcases mark_of_opensLineComment hl hc with ⟨hc, -⟩ | ⟨hc, -⟩ <;> exact absurd hc (by decide)

lemma statement_append (hl : l ∈ Language.builtin) (h : Exchange l u z z')
    (hn : (statement l depth spaced d (u ++ z)).more ≤ d.more + u.length) :
    statement l depth spaced d (u ++ z') = statement l depth spaced d (u ++ z) := by
  have hle : ∀ depth spaced d s, d.more ≤ (statement l depth spaced d s).more := fun depth spaced d s =>
    (takes_statement l depth spaced d s).le.1
  -- One step can read a line continuation or a quoted part, so the induction is on the length.
  induction hm : u.length using Nat.strongRecOn generalizing u d depth spaced with
  | ind m ih =>
    cases u with
    | nil =>
      obtain ⟨he, hd⟩ : EndsLine l z ∧ (z = [] ∨ depth = 0) := endsLine_of_statement hn
      have hd := hd.resolve_left h.nonempty
      rw [List.nil_append, List.nil_append, statement_of_endsLine he (.inr hd),
        statement_of_endsLine (h.endsLine he) (.inr hd)]
    | cons c u =>
      have hcontinued : c = '\\' ∧ (u ++ z').head? = some '\n' ↔ c = '\\' ∧ (u ++ z).head? = some '\n' :=
        and_congr_right fun hc => by
          subst hc
          exact continued_statement hl h hn
      rw [List.length_cons] at hn hm
      rw [List.cons_append, statement] at hn
      rw [List.cons_append, List.cons_append, statement, statement, ← h.opensLineComment_append hl]
      simp only [hcontinued]
      split_ifs at hn ⊢ with hstop hb hblank hend hquote
      · rfl
      · cases u with
        | nil =>
          have := hle depth true (d.skip 2) z.tail
          rw [Draft.more_skip] at this
          simp only [List.nil_append, List.length_nil] at hn
          omega
        | cons e u =>
          rw [List.length_cons] at hn hm
          exact ih u.length (by omega) h.tail.tail (by rw [Draft.more_skip]; exact hn.trans (by omega)) rfl
      · exact ih u.length (by omega) h.tail (by rw [Draft.more_skip]; omega) rfl
      · rfl
      · -- What is read behind the quoted part shows that the part ends in front of the place.
        dsimp only at hn ⊢
        have hlen := hle depth false ((d.keep spaced c).keepText ((u ++ z).take (quotedLength c 0 0 (u ++ z)).1)
          (quotedLength c 0 0 (u ++ z)).2) ((u ++ z).drop (quotedLength c 0 0 (u ++ z)).1)
        have hinside := (quotedLength_le c 0 0 (u ++ z) (Nat.le_refl 0)).1
        rw [Draft.more_keepText, Draft.more_keep, List.length_take, Nat.min_eq_left (by omega)] at hlen
        have hfit : (quotedLength c 0 0 (u ++ z)).1 ≤ u.length := by omega
        rw [quotedLength_append h.tail (by omega), List.take_append_of_le_length hfit,
          List.take_append_of_le_length hfit, List.drop_append_of_le_length hfit, List.drop_append_of_le_length hfit]
        rw [List.take_append_of_le_length hfit, List.drop_append_of_le_length hfit] at hn
        refine ih _ ?_ (h.tail.of_drop _) ?_ rfl <;> rw [List.length_drop]
        · omega
        · rw [Draft.more_keepText, Draft.more_keep, List.length_take, Nat.min_eq_left hfit]
          omega
      · exact ih u.length (by omega) h.tail (by rw [Draft.more_keep]; omega) rfl

/-! ### What stands behind a directive word -/

def isSpace (c : Char) : Bool := c = ' ' || c = '\t'

lemma opensDirective_eq (l : Language) (u : List Char) : opensDirective l u =
    match (u.dropWhile isSpace).head? with
    | none => true
    | some c => if c = '(' then l.directiveLists else !expressionMarks.contains c := rfl

lemma opensDirective_append (l : Language) (hu : u.dropWhile isSpace ≠ []) (z : List Char) :
    opensDirective l (u ++ z) = opensDirective l u := by
  rw [opensDirective_eq, opensDirective_eq, List.dropWhile_append, if_neg (by simpa using hu),
    List.head?_append_of_ne_nil _ hu]

lemma opensDirective_spaces (l : Language) (hu : u.dropWhile isSpace = []) (z : List Char) :
    opensDirective l (u ++ z) = opensDirective l z := by
  rw [opensDirective_eq, opensDirective_eq, List.dropWhile_append, hu]
  rfl

lemma opensDirective_congr (h : (z.dropWhile isSpace).head? = (z'.dropWhile isSpace).head?) (u : List Char) :
    opensDirective l (u ++ z) = opensDirective l (u ++ z') := by
  by_cases hu : u.dropWhile isSpace = []
  · rw [opensDirective_spaces l hu, opensDirective_spaces l hu, opensDirective_eq, opensDirective_eq, h]
  · rw [opensDirective_append l hu, opensDirective_append l hu]

lemma opensDirective_of_endsLine (hl : l ∈ Language.builtin) (he : EndsLine l z) : opensDirective l z = true := by
  cases z with
  | nil => rfl
  | cons x z =>
    have hmem := he.head?_mem hl rfl
    simp only [List.mem_cons, List.not_mem_nil, or_false] at hmem
    rcases hmem with rfl | rfl | rfl <;> simp [opensDirective_eq, isSpace, expressionMarks]

lemma isBlank_of_isSpace (h : isSpace c = true) : Text.isBlank c = true := by
  simp only [isSpace, Bool.or_eq_true, decide_eq_true_eq] at h
  rcases h with rfl | rfl <;> decide

lemma Takes.endsLine (h : Takes l n (u ++ z) k) (hk : k ≤ n + u.length) (hl : l ∈ Language.builtin)
    (hu : u.dropWhile isSpace = []) : EndsLine l z := by
  have hspace : ∀ x ∈ u, isSpace x = true := List.dropWhile_eq_nil_iff.mp hu
  obtain ⟨body, behind, htext, rfl, he⟩ := h
  have hbody : body <+: u := by
    refine List.prefix_of_prefix_length_le ⟨behind, htext.symm⟩ (List.prefix_append u z) ?_
    omega
  obtain ⟨v, rfl⟩ := hbody
  rw [List.append_assoc, List.append_cancel_left_eq] at htext
  subst htext
  have he := he.resolve_left fun hd => by
    obtain ⟨c, hc, hdark⟩ := hd
    have := isBlank_of_isSpace (hspace c (List.mem_append_left v (List.mem_of_getLast? hc)))
    rw [hdark] at this
    exact absurd this (by decide)
  cases v with
  | nil => exact he
  | cons c v =>
    have hc : isSpace c = true := hspace c (by simp)
    have hmem := he.head?_mem hl rfl
    simp only [List.mem_cons, List.not_mem_nil, or_false] at hmem
    rcases hmem with rfl | rfl | rfl <;> exact absurd hc (by decide)

end CodeClones.Source
