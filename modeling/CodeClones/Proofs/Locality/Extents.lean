import CodeClones.Proofs.Locality.Words

/-! A construct that ends in front of a place is not changed when the text behind the place is. -/

namespace CodeClones.Source

variable {l : Language} {c quote : Char} {n depth marks : ℕ} {s u z z' : List Char} {d : Delimiter} {nested : Bool}

/-- The text `z` can be exchanged for `z'` behind the text `u`: no word, number or mark goes on into either of them,
a line that ends with `u` still ends, and `u` ends with nothing that makes another mark with `z` than with `z'`. -/
structure Exchange (l : Language) (u z z' : List Char) : Prop where
  nonempty : z ≠ []
  breaking : Breaking l z
  breaking' : Breaking l z'
  lineFeed : z.head? = some '\n' → z' = [] ∨ z'.head? = some '\n'
  lineComment : l.opensLineComment z = true → EndsLine l z'
  marks : z.head? = z'.head? ∨ z'.head? ≠ some '/' ∧
    ∀ x, z.head? = some x → Text.isBlank x = false → '/' ∉ u ∧ '\\' ∉ u

namespace Exchange

lemma of_append (h : Exchange l (s ++ u) z z') : Exchange l u z z' where
  nonempty := h.nonempty
  breaking := h.breaking
  breaking' := h.breaking'
  lineFeed := h.lineFeed
  lineComment := h.lineComment
  marks := h.marks.imp_right fun hm => ⟨hm.1, fun x hx hb =>
    ⟨fun hu => (hm.2 x hx hb).1 (List.mem_append_right s hu), fun hu => (hm.2 x hx hb).2 (List.mem_append_right s hu)⟩⟩

lemma tail (h : Exchange l (c :: u) z z') : Exchange l u z z' := of_append (s := [c]) h

lemma of_drop (h : Exchange l u z z') (k : ℕ) : Exchange l (u.drop k) z z' :=
  of_append (s := u.take k) (by rwa [List.take_append_drop])

lemma endsLine (h : Exchange l u z z') (hz : EndsLine l z) : EndsLine l z' := by
  rcases hz with hz | hz | hz
  · exact absurd hz h.nonempty
  · exact (h.lineFeed hz).imp_right .inl
  · exact h.lineComment hz

lemma head?_slash (h : Exchange l ('/' :: u) z z') : z.head? = some '/' ↔ z'.head? = some '/' := by
  rcases h.marks with hm | ⟨hz', hm⟩
  · rw [hm]
  · exact iff_of_false (fun hz => (hm '/' hz isBlank_slash).1 List.mem_cons_self) hz'

lemma slashes_append (h : Exchange l (c :: u) z z') :
    ['/', '/'].isPrefixOf (c :: (u ++ z)) = ['/', '/'].isPrefixOf (c :: (u ++ z')) := by
  by_cases hc : c = '/'
  · subst hc
    cases u with
    | nil =>
      have hhead : ∀ s : List Char, ['/'].isPrefixOf s = decide (s.head? = some '/') := by
        rintro (_ | ⟨x, s⟩)
        · rfl
        · simp [List.isPrefixOf_cons_cons, Bool.beq_eq_decide_eq, eq_comm (a := x)]
      simp only [List.isPrefixOf_cons_cons, List.nil_append, hhead, h.head?_slash]
    | cons e u => simp [List.isPrefixOf_cons_cons]
  · have hne : ('/' == c) = false := by simpa using Ne.symm hc
    simp only [List.isPrefixOf_cons_cons, hne, Bool.false_and]

lemma opensLineComment_append (h : Exchange l (c :: u) z z') (hl : l ∈ Language.builtin) :
    l.opensLineComment (c :: (u ++ z)) = l.opensLineComment (c :: (u ++ z')) := by
  rw [Language.opensLineComment, Language.opensLineComment]
  rcases (comments_of_builtin hl).1 with hc | hc | hc <;> rw [hc]
  · exact h.slashes_append
  · simp [List.isPrefixOf_cons_cons]

end Exchange

lemma EndsLine.head?_mem (hl : l ∈ Language.builtin) (h : EndsLine l s) (hc : s.head? = some c) :
    c ∈ ['\n', '/', '#'] := by
  obtain ⟨s, rfl⟩ := List.head?_eq_some_iff.mp hc
  rcases h with h | h | h
  · exact absurd h (List.cons_ne_nil c s)
  · simp [Option.some.inj h]
  · rcases mark_of_opensLineComment hl h with ⟨rfl, -⟩ | ⟨rfl, -⟩ <;> decide

lemma opensLineComment_blank (hl : l ∈ Language.builtin) (hw : Text.isBlank c = true) (u : List Char) :
    l.opensLineComment (c :: u) = false := by
  cases h : l.opensLineComment (c :: u) with
  | false => rfl
  | true => rcases mark_of_opensLineComment hl h with ⟨rfl, -⟩ | ⟨rfl, -⟩ <;> exact absurd hw (by decide)

lemma exchange_blank (hl : l ∈ Language.builtin) (hw : Text.isBlank c = true) (u z z' : List Char) :
    Exchange l u (c :: z) (c :: z') where
  nonempty := List.cons_ne_nil c z
  breaking x hx := .inl (Option.some.inj hx ▸ hw)
  breaking' x hx := .inl (Option.some.inj hx ▸ hw)
  lineFeed hx := .inr hx
  lineComment hx := absurd hx (by simp [opensLineComment_blank hl hw])
  marks := .inl rfl

lemma exchange_space (hl : l ∈ Language.builtin) (hz : ∀ x, z.head? = some x → Text.isBlank x = true) (u : List Char) :
    Exchange l u [' '] z where
  nonempty := List.cons_ne_nil _ _
  breaking x hx := .inl (by rw [← Option.some.inj hx]; decide)
  breaking' x hx := .inl (hz x hx)
  lineFeed hx := absurd hx (by decide)
  lineComment hx := absurd hx (by simp [opensLineComment_blank (c := ' ') hl (by decide)])
  marks := .inr ⟨fun hx => absurd (hz _ hx) (by decide), fun x hx hb => by
    rw [← Option.some.inj hx] at hb
    exact absurd hb (by decide)⟩

lemma Takes.lt {k : ℕ} (h : Takes l (n + 1) s k) : n < k := by
  have := h.le.1
  omega

namespace Extent

lemma lt_length_blockComment (nested : Bool) (depth n : ℕ) (hz : z ≠ []) :
    n < (blockComment nested depth n z).length := by
  obtain ⟨c, z, rfl⟩ := List.exists_cons_of_ne_nil hz
  rw [blockComment]
  split_ifs
  · simp [length]
  · exact Nat.lt_of_succ_lt (takes_blockComment .text nested _ (n + 1 + 1) _).lt
  · exact Nat.lt_of_succ_lt (takes_blockComment .text nested _ (n + 1 + 1) _).lt
  · exact (takes_blockComment .text nested _ _ _).lt

lemma blockComment_append (hz : z ≠ []) (h : (blockComment nested depth n (u ++ z)).length ≤ n + u.length) :
    blockComment nested depth n (u ++ z') = blockComment nested depth n (u ++ z) := by
  fun_induction blockComment nested depth n u with
  | case1 n => exact absurd h (Nat.not_le.mpr (lt_length_blockComment nested _ _ hz))
  | case2 n c rest hc =>
    obtain ⟨rest, rfl⟩ := List.head?_eq_some_iff.mp hc.2
    simp [blockComment, hc.1]
  | case3 depth n c rest hc hd ih =>
    obtain ⟨rest, rfl⟩ := List.head?_eq_some_iff.mp hc.2
    simp only [List.cons_append, blockComment, List.head?_cons, hc.1, and_self, if_true, hd, if_false,
      List.tail_cons, List.length_cons] at h ih ⊢
    exact ih (by omega)
  | case4 depth n c rest hc hc' ih =>
    obtain ⟨rest, rfl⟩ := List.head?_eq_some_iff.mp hc'.2.2
    simp only [List.cons_append, blockComment, List.head?_cons, hc'.1, hc'.2.1, List.tail_cons,
      List.length_cons] at h ih ⊢
    exact ih (by simp at h ⊢; omega)
  | case5 depth n c rest hc hc' ih =>
    cases rest with
    | nil =>
      -- The last character in front of the place closes nothing, so the comment reaches over the place.
      refine absurd h (Nat.not_le.mpr ?_)
      rw [List.cons_append, List.nil_append, blockComment]
      split_ifs
      · simp [length]
      · exact (takes_blockComment .text nested _ (n + 1 + 1) _).lt
      · exact (takes_blockComment .text nested _ (n + 1 + 1) _).lt
      · exact lt_length_blockComment nested depth (n + 1) hz
    | cons e rest =>
      simp only [List.head?_cons, Option.some.injEq] at hc hc'
      simp only [List.cons_append, blockComment, List.head?_cons, hc, hc', if_false, Option.some.injEq,
        List.length_cons] at h ih ⊢
      exact ih (by omega)

lemma isBlank_of_mark (hc : c ∈ markCharacters) : Text.isBlank c = false := by
  cases hb : Text.isBlank c with
  | false => rfl
  | true => exact absurd rfl (isBlank_ne hb hc)

lemma literal_append (h : Exchange l u z z') (hq : d.quote ∈ markCharacters)
    (hn : (literal d n (u ++ z)).length ≤ n + u.length) : literal d n (u ++ z') = literal d n (u ++ z) := by
  have hle : ∀ n s, n ≤ (literal d n s).length := fun n s => (takes_literal .text (isBlank_of_mark hq) n s).le.1
  fun_induction literal d n u with
  | case1 n =>
    obtain ⟨x, z, rfl⟩ := List.exists_cons_of_ne_nil h.nonempty
    by_cases hx : x = '\n' ∧ ¬ d.multiline
    · have hz' := h.lineFeed (by rw [hx.1]; rfl)
      rcases hz' with rfl | hz'
      · simp [literal_cons, hx, literal]
      · obtain ⟨z', rfl⟩ := List.head?_eq_some_iff.mp hz'
        simp [literal_cons, hx]
    · refine absurd hn (Nat.not_le.mpr ?_)
      rw [List.nil_append, literal_cons, if_neg hx]
      split_ifs
      · simp [length]
      · exact Nat.lt_of_succ_lt (hle _ _)
      · simp [length]
      · exact hle _ _
  | case2 n c rest hc =>
    rw [List.cons_append, List.cons_append, literal_cons, literal_cons, if_pos hc, if_pos hc]
  | case3 n c hc hc' =>
    rw [List.cons_append, literal_cons, if_neg hc, if_pos hc', List.nil_append, if_neg h.nonempty] at hn
    exact absurd hn (Nat.not_le.mpr (hle _ _))
  | case4 n c hc hc' e rest ih =>
    rw [List.cons_append, List.cons_append, literal_cons, if_neg hc, if_pos hc', if_neg (List.cons_ne_nil _ _),
      List.tail_cons] at hn ⊢
    rw [List.cons_append, List.cons_append, literal_cons, if_neg hc, if_pos hc', if_neg (List.cons_ne_nil _ _),
      List.tail_cons]
    rw [List.length_cons, List.length_cons] at hn
    exact ih h.tail.tail (by omega)
  | case5 n rest hc hc' =>
    rw [List.cons_append, List.cons_append, literal_cons, literal_cons, if_neg hc, if_neg hc', if_pos rfl, if_neg hc,
      if_neg hc', if_pos rfl]
  | case6 n c rest hc hc' hc'' ih =>
    simp only [List.cons_append, literal_cons _ _ c, hc, hc', hc'', if_false, List.length_cons] at hn ⊢
    exact ih h.tail (by omega)

lemma tripleQuoted_cons (quote : Char) (n : ℕ) (c : Char) (s : List Char) : tripleQuoted quote n (c :: s) =
    if c = quote ∧ [quote, quote].isPrefixOf s then .closed (n + 3)
    else if c = '\\' then if s = [] then .unclosed (n + 1) else tripleQuoted quote (n + 2) s.tail
    else tripleQuoted quote (n + 1) s := by
  cases s <;> simp [tripleQuoted]

lemma tripleQuoted_append (h : Exchange l u z z') (hq : quote ∈ markCharacters)
    (hn : (tripleQuoted quote n (u ++ z)).length ≤ n + u.length) :
    tripleQuoted quote n (u ++ z') = tripleQuoted quote n (u ++ z) := by
  have hle : ∀ n s, n ≤ (tripleQuoted quote n s).length := fun n s =>
    (takes_tripleQuoted .text (isBlank_of_mark hq) n s).le.1
  have hmarks : [quote, quote] ⊆ markCharacters := by simpa using hq
  have hprefix : ∀ u, [quote, quote].isPrefixOf (u ++ z') = [quote, quote].isPrefixOf (u ++ z) := fun u => by
    rw [h.breaking'.isPrefixOf_append_marks _ hmarks, h.breaking.isPrefixOf_append_marks _ hmarks]
  induction hm : u.length using Nat.strongRecOn generalizing u n with
  | ind m ih =>
    cases u with
    | nil =>
      obtain ⟨x, z, rfl⟩ := List.exists_cons_of_ne_nil h.nonempty
      refine absurd hn (Nat.not_le.mpr ?_)
      rw [List.nil_append, tripleQuoted_cons]
      split_ifs
      · simp [length]
      · simp [length]
      · exact Nat.lt_of_succ_lt (hle _ _)
      · exact hle _ _
    | cons c u =>
      rw [List.length_cons] at hm hn
      rw [List.cons_append, tripleQuoted_cons] at hn
      rw [List.cons_append, List.cons_append, tripleQuoted_cons, tripleQuoted_cons, hprefix u]
      split
      · rfl
      · next hc =>
        rw [if_neg hc] at hn
        split
        · next hb =>
          rw [if_pos hb] at hn
          cases u with
          | nil =>
            rw [List.nil_append, if_neg h.nonempty] at hn
            exact absurd hn (Nat.not_le.mpr (hle _ _))
          | cons e u =>
            simp only [List.cons_append, reduceCtorEq, if_false, List.tail_cons, List.length_cons] at hn hm ⊢
            exact ih u.length (by omega) h.tail.tail (by omega) rfl
        · next hb =>
          rw [if_neg hb] at hn
          exact ih u.length (by omega) h.tail (by omega) rfl

lemma rawString_append (h : Exchange l u z z') (hm : marks = 0 ∨ ¬ Breaks l '#')
    (hn : (rawString marks n (u ++ z)).length ≤ n + u.length) :
    rawString marks n (u ++ z') = rawString marks n (u ++ z) := by
  have hmarks : ∀ x ∈ List.replicate marks '#', ¬ Breaks l x := by
    intro x hx
    obtain ⟨hne, rfl⟩ := List.mem_replicate.mp hx
    exact hm.resolve_left hne
  induction u generalizing n with
  | nil =>
    obtain ⟨x, z, rfl⟩ := List.exists_cons_of_ne_nil h.nonempty
    refine absurd hn (Nat.not_le.mpr ?_)
    rw [List.nil_append, rawString]
    split
    · simp only [length, List.length_nil]
      omega
    · exact (takes_rawString .text marks _ _).lt
  | cons c u ih =>
    rw [List.length_cons] at hn
    rw [List.cons_append, rawString] at hn
    rw [List.cons_append, List.cons_append, rawString, rawString, h.breaking'.isPrefixOf_append hmarks,
      h.breaking.isPrefixOf_append hmarks]
    rw [h.breaking.isPrefixOf_append hmarks] at hn
    split_ifs at hn ⊢ with hc
    · rfl
    · exact ih h.tail (by omega)

lemma verbatimString_cons (n : ℕ) (c : Char) (s : List Char) : verbatimString n (c :: s) =
    if c = '"' then if s.head? = some '"' then verbatimString (n + 2) s.tail else .closed (n + 1)
    else verbatimString (n + 1) s := by
  rw [verbatimString.eq_def]
  cases s with
  | nil => rfl
  | cons e s =>
    by_cases he : e = '"'
    · simp [he]
    · simp [he]

lemma verbatimString_append (h : Exchange l u z z')
    (hn : (verbatimString n (u ++ z)).length ≤ n + u.length) :
    verbatimString n (u ++ z') = verbatimString n (u ++ z) := by
  have hle : ∀ n s, n ≤ (verbatimString n s).length := fun n s => (takes_verbatimString .text n s).le.1
  induction hm : u.length using Nat.strongRecOn generalizing u n with
  | ind m ih =>
    cases u with
    | nil =>
      obtain ⟨x, z, rfl⟩ := List.exists_cons_of_ne_nil h.nonempty
      refine absurd hn (Nat.not_le.mpr ?_)
      rw [List.nil_append, verbatimString_cons]
      split_ifs
      · exact Nat.lt_of_succ_lt (hle _ _)
      · simp [length]
      · exact hle _ _
    | cons c u =>
      rw [List.length_cons] at hm hn
      rw [List.cons_append, verbatimString_cons] at hn
      rw [List.cons_append, List.cons_append, verbatimString_cons, verbatimString_cons]
      simp only [h.breaking.head?_append (c := '"') (by decide), h.breaking'.head?_append (c := '"') (by decide)]
        at hn ⊢
      split_ifs at hn ⊢ with hc he
      · obtain ⟨u, rfl⟩ := List.head?_eq_some_iff.mp he
        rw [List.length_cons] at hm hn
        exact ih u.length (by omega) h.tail.tail (hn.trans (by omega)) rfl
      · rfl
      · exact ih u.length (by omega) h.tail (by omega) rfl

lemma string_append (h : Exchange l u z z') (hq : quote ∈ markCharacters)
    (hn : (string l quote n (u ++ z)).length ≤ n + u.length) :
    string l quote n (u ++ z') = string l quote n (u ++ z) := by
  have hmarks : [quote, quote] ⊆ markCharacters := by simpa using hq
  rw [string] at hn
  rw [string, string, h.breaking'.isPrefixOf_append_marks _ hmarks, h.breaking.isPrefixOf_append_marks _ hmarks]
  rw [h.breaking.isPrefixOf_append_marks _ hmarks] at hn
  split_ifs at hn ⊢ with ht
  · obtain ⟨u, rfl⟩ := List.isPrefixOf_iff_prefix.mp ht.2
    rw [List.length_append] at hn
    exact tripleQuoted_append h.of_append hq (by simpa [Nat.add_assoc] using hn)
  · exact literal_append h hq hn

end Extent

end CodeClones.Source
