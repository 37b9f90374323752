import CodeClones.Proofs.Source.Trivia

/-! What the image of a directive shows of the text that the directive takes. -/

namespace CodeClones.Source

variable {l : Language} {lineStart : Bool} {image text rest : List Char} {c : Char} {i k : ℕ} {d : Draft}

def IsContinued (text : List Char) (i : ℕ) : Prop :=
  ['\\', '\n'] <+: text.drop i ∨ ['\\', '\r', '\n'] <+: text.drop i

/-- The character is a backslash with a carriage return behind it, but no line feed behind both; or it is the
character behind both. -/
def IsBroken (text : List Char) (i : ℕ) : Prop :=
  ∃ j, ['\\', '\r'] <+: text.drop j ∧ text[j + 2]? ≠ some '\n' ∧ (i = j ∨ i = j + 2)

def IsShown (image text : List Char) (i : ℕ) : Prop :=
  ∃ c, text[i]? = some c ∧ (Text.isBlank c = true ∨ c ∈ image ∨ IsContinued text i)

lemma IsContinued.append (h : IsContinued text i) (s : List Char) : IsContinued (s ++ text) (s.length + i) := by
  rwa [IsContinued, List.drop_length_add_append]

lemma IsBroken.append (h : IsBroken text i) (s : List Char) : IsBroken (s ++ text) (s.length + i) := by
  obtain ⟨j, hp, hn, hi⟩ := h
  refine ⟨s.length + j, by rwa [List.drop_length_add_append], ?_, by omega⟩
  rwa [Nat.add_assoc, List.getElem?_append_right (by omega), Nat.add_sub_cancel_left]

lemma IsBroken.cons (h : IsBroken rest i) (c : Char) : IsBroken (c :: rest) (i + 1) := by
  rw [Nat.add_comm]
  exact h.append [c]

lemma IsShown.append (h : IsShown image text i) (s : List Char) : IsShown image (s ++ text) (s.length + i) := by
  obtain ⟨c, hc, h⟩ := h
  refine ⟨c, ?_, h.imp_right (Or.imp_right fun h => h.append s)⟩
  rwa [List.getElem?_append_right (by omega), Nat.add_sub_cancel_left]

lemma IsShown.cons (h : IsShown image rest i) (c : Char) : IsShown image (c :: rest) (i + 1) := by
  rw [Nat.add_comm]
  exact h.append [c]

lemma isShown_or_isBroken_append (h : IsShown image text i ∨ IsBroken text i) (s : List Char) :
    IsShown image (s ++ text) (s.length + i) ∨ IsBroken (s ++ text) (s.length + i) :=
  h.imp (fun h => h.append s) fun h => h.append s

lemma isShown_or_isBroken_cons (h : IsShown image rest i ∨ IsBroken rest i) (c : Char) :
    IsShown image (c :: rest) (i + 1) ∨ IsBroken (c :: rest) (i + 1) :=
  h.imp (fun h => h.cons c) fun h => h.cons c

lemma isShown_of_mem (hc : text[i]? = some c) (h : c ∈ image) : IsShown image text i := ⟨c, hc, .inr (.inl h)⟩

lemma isShown_of_isBlank (hc : text[i]? = some c) (h : Text.isBlank c = true) : IsShown image text i :=
  ⟨c, hc, .inl h⟩

lemma isShown_of_isContinued (hc : text[i]? = some c) (h : IsContinued text i) : IsShown image text i :=
  ⟨c, hc, .inr (.inr h)⟩

lemma IsShown.reverse (h : IsShown image text i) : IsShown image.reverse text i := by
  simpa only [IsShown, List.mem_reverse] using h

/-! ### Drafts -/

lemma Draft.mem_keep (d : Draft) (spaced : Bool) (c : Char) : c ∈ (d.keep spaced c).reversed := List.mem_cons_self

lemma Draft.reversed_subset_keep (d : Draft) (spaced : Bool) (c : Char) : d.reversed ⊆ (d.keep spaced c).reversed := by
  intro x hx
  cases spaced with
  | true => exact List.mem_cons_of_mem _ (List.mem_cons_of_mem _ hx)
  | false => exact List.mem_cons_of_mem _ hx

lemma reversed_subset_statement (l : Language) (depth : ℕ) (spaced : Bool) (d : Draft) (text : List Char) :
    d.reversed ⊆ (statement l depth spaced d text).reversed := by
  fun_induction statement l depth spaced d text with
  | case1 => exact List.Subset.refl _
  | case2 => exact List.Subset.refl _
  | case3 depth spaced d c rest _ _ ih => exact ih
  | case4 depth spaced d c rest _ _ _ ih => exact ih
  | case5 depth spaced d c rest => exact d.reversed_subset_keep spaced c
  | case6 depth spaced d c rest h₁ h₂ h₃ h₄ h₅ n reach hn ih =>
    exact List.Subset.trans (List.Subset.trans (d.reversed_subset_keep spaced c) (List.subset_append_right _ _)) ih
  | case7 depth spaced d c rest _ _ _ _ _ ih => exact List.Subset.trans (d.reversed_subset_keep spaced c) ih

lemma reversed_subset_preprocessorLine (spaced : Bool) (d : Draft) (text : List Char) :
    d.reversed ⊆ (preprocessorLine spaced d text).reversed := by
  fun_induction preprocessorLine spaced d text with
  | case1 => exact List.Subset.refl _
  | case2 => exact List.Subset.refl _
  | case3 spaced d c rest _ _ ih => exact ih
  | case4 spaced d c rest _ _ _ ih => exact ih
  | case5 spaced d c rest _ _ _ ih => exact List.Subset.trans (d.reversed_subset_keep spaced c) ih

lemma isShown_statement (l : Language) (depth : ℕ) (spaced : Bool) (d : Draft) (text : List Char) (i : ℕ)
    (hi : d.more + i < (statement l depth spaced d text).more) :
    IsShown (statement l depth spaced d text).reversed text i := by
  fun_induction statement l depth spaced d text generalizing i with
  | case1 => omega
  | case2 => omega
  | case3 depth spaced d c rest h h' ih =>
    obtain ⟨rest, rfl⟩ := List.head?_eq_some_iff.mp h'.2
    obtain rfl := h'.1
    rcases i with _ | _ | i
    · exact isShown_of_isContinued rfl (.inl ⟨rest, rfl⟩)
    · exact isShown_of_isBlank rfl (by decide)
    · exact ((ih i (by simp only [Draft.skip] at hi ⊢; omega)).cons '\n').cons '\\'
  | case4 depth spaced d c rest h h' h'' ih =>
    rcases i with _ | i
    · exact isShown_of_isBlank rfl h''
    · exact (ih i (by simp only [Draft.skip] at hi ⊢; omega)).cons c
  | case5 depth spaced d c rest =>
    rcases i with _ | i
    · exact isShown_of_mem rfl (d.mem_keep spaced c)
    · simp only [Draft.keep] at hi
      omega
  | case6 depth spaced d c rest h₁ h₂ h₃ h₄ h₅ n reach hn ih =>
    have hle := (quotedLength_le c 0 0 rest (Nat.le_refl 0)).1
    rw [hn, Nat.zero_add] at hle
    have hsub := reversed_subset_statement l depth false ((d.keep spaced c).keepText (rest.take n) reach) (rest.drop n)
    rcases i with _ | i
    · exact isShown_of_mem rfl (hsub (List.mem_append_right _ (d.mem_keep spaced c)))
    · refine .cons ?_ c
      rcases Nat.lt_or_ge i n with hlt | hge
      · have hx := List.getElem?_eq_getElem (hlt.trans_le hle)
        refine isShown_of_mem hx (hsub (List.mem_append_left _ (List.mem_reverse.mpr ?_)))
        exact List.mem_of_getElem? ((List.getElem?_take_of_lt hlt).trans hx)
      · have := (ih (i - n) ?_).append (rest.take n)
        · rwa [List.take_append_drop, List.length_take, Nat.min_eq_left hle, Nat.add_sub_cancel' hge] at this
        · simp only [Draft.keepText, Draft.keep, List.length_take, Nat.min_eq_left hle] at hi ⊢
          omega
  | case7 depth spaced d c rest h₁ h₂ h₃ h₄ h₅ ih =>
    rcases i with _ | i
    · exact isShown_of_mem rfl (reversed_subset_statement _ _ _ _ _ (d.mem_keep spaced c))
    · exact (ih i (by simp only [Draft.keep] at hi ⊢; omega)).cons c

lemma isShown_continuation (image : List Char) (h : i < 1 + continuationLength rest)
    (hpos : 0 < continuationLength rest) : IsShown image ('\\' :: rest) i ∨ IsBroken ('\\' :: rest) i := by
  have hreturn : Text.isBlank '\r' = true := by decide
  have hfeed : Text.isBlank '\n' = true := by decide
  unfold continuationLength at h hpos
  split at h
  · next rest =>
    obtain rfl | rfl : i = 0 ∨ i = 1 := by omega
    · exact .inl (isShown_of_isContinued rfl (.inl ⟨rest, rfl⟩))
    · exact .inl (isShown_of_isBlank rfl hfeed)
  · next following =>
    cases following with
    | nil =>
      obtain rfl | rfl : i = 0 ∨ i = 1 := by simp at h; omega
      · exact .inr ⟨0, ⟨[], rfl⟩, by simp, .inl rfl⟩
      · exact .inl (isShown_of_isBlank rfl hreturn)
    | cons x following =>
      obtain rfl | rfl | rfl : i = 0 ∨ i = 1 ∨ i = 2 := by simp at h; omega
      all_goals by_cases hx : x = '\n'
      · exact .inl (isShown_of_isContinued rfl (.inr ⟨following, by rw [hx]; rfl⟩))
      · exact .inr ⟨0, ⟨x :: following, rfl⟩, by simpa using hx, .inl rfl⟩
      · exact .inl (isShown_of_isBlank rfl hreturn)
      · exact .inl (isShown_of_isBlank rfl hreturn)
      · exact .inl (isShown_of_isBlank rfl (hx ▸ hfeed))
      · exact .inr ⟨0, ⟨x :: following, rfl⟩, by simpa using hx, .inr rfl⟩
  · simp at hpos

lemma isShown_preprocessorLine (spaced : Bool) (d : Draft) (text : List Char) (i : ℕ)
    (hi : d.more + i < (preprocessorLine spaced d text).more) :
    IsShown (preprocessorLine spaced d text).reversed text i ∨ IsBroken text i := by
  fun_induction preprocessorLine spaced d text generalizing i with
  | case1 => omega
  | case2 => omega
  | case3 spaced d c rest h h' ih =>
    obtain ⟨rfl, hpos⟩ := h'
    have hle := continuationLength_le rest
    rcases Nat.lt_or_ge i (1 + continuationLength rest) with hlt | hge
    · exact isShown_continuation _ hlt hpos
    · obtain ⟨j, rfl⟩ := Nat.exists_eq_add_of_le hge
      have := isShown_or_isBroken_append (ih j (by simp only [Draft.skip] at hi ⊢; omega))
        ('\\' :: rest.take (continuationLength rest))
      rwa [List.cons_append, List.take_append_drop, List.length_cons, List.length_take, Nat.min_eq_left hle,
        Nat.add_comm _ 1] at this
  | case4 spaced d c rest h h' h'' ih =>
    rcases i with _ | i
    · exact .inl (isShown_of_isBlank rfl h'')
    · exact isShown_or_isBroken_cons (ih i (by simp only [Draft.skip] at hi ⊢; omega)) c
  | case5 spaced d c rest h h' h'' ih =>
    rcases i with _ | i
    · exact .inl (isShown_of_mem rfl (reversed_subset_preprocessorLine _ _ _ (d.mem_keep spaced c)))
    · exact isShown_or_isBroken_cons (ih i (by simp only [Draft.keep] at hi ⊢; omega)) c

/-! ### Readings -/

lemma isShown_ofText (l : Language) {tail behind : List Char}
    (hi : i ≤ (statement l 0 false (.ofText c tail) behind).more) :
    IsShown (statement l 0 false (.ofText c tail) behind).reversed (c :: (tail ++ behind)) i := by
  have hsub := reversed_subset_statement l 0 false (.ofText c tail) behind
  rw [← List.cons_append]
  rcases Nat.lt_or_ge i (c :: tail).length with hlt | hge
  · have hx := List.getElem?_eq_getElem hlt
    refine isShown_of_mem (by rw [List.getElem?_append_left hlt, hx]) (hsub ?_)
    exact List.mem_reverse.mpr (List.getElem_mem hlt)
  · obtain ⟨j, rfl⟩ := Nat.exists_eq_add_of_le hge
    refine (isShown_statement l 0 false (.ofText c tail) behind j ?_).append (c :: tail)
    simp only [Draft.ofText, List.length_cons] at hi ⊢
    omega

lemma readToken_eq_directive {reach : ℕ} (hl : l ∈ Language.builtin)
    (h : readToken l lineStart c rest = .ok ⟨.token .directive image reach, k⟩) :
    l.preprocessor = true ∧ c = '#' ∧
        (preprocessorLine false (.ofText c []) rest).reading = ⟨.token .directive image reach, k⟩ ∨
      l.opensWord c = true ∧ ∃ tail behind, rest = tail ++ behind ∧ (∀ x ∈ tail, l.continuesWord x = true) ∧
        (statement l 0 false (.ofText c tail) behind).reading = ⟨.token .directive image reach, k⟩ := by
  have hplain : ∀ {x : Except Failure ℕ} {kind}, kind ≠ .directive →
      x.map (Reading.plain kind c rest) ≠ .ok ⟨.token .directive image reach, k⟩ := by
    intro x kind hk hx
    obtain ⟨k, -, he⟩ := Success.map_eq_ok.mp hx
    simp only [Reading.plain, Reading.mk.injEq, Role.token.injEq] at he
    exact hk he.1.1
  have hliteral : ∀ {kind : Kind}, kind.isLiteral = true → kind ≠ .directive := by
    rintro kind hk rfl
    exact absurd hk (by decide)
  revert h
  refine readToken_cases (P := fun x => x = .ok _ → _) ?preprocessorLine ?metadata ?verbatimString ?word ?number ?string
    ?otherLiteral ?operator
  case preprocessorLine =>
    rintro r hr ⟨⟩
    obtain ⟨hp, hr⟩ := Option.ite_none_right_eq_some.mp hr
    simp only [Bool.and_eq_true, decide_eq_true_eq] at hp
    exact .inl ⟨hp.1.1, hp.2, Option.some.inj hr⟩
  case metadata =>
    intro x hx h
    obtain ⟨length, -, rfl⟩ := Option.map_eq_some_iff.mp hx
    obtain ⟨k, -, he⟩ := Success.map_eq_ok.mp h
    simp at he
  case verbatimString =>
    intro x hx h
    obtain ⟨-, hx⟩ := Option.ite_none_right_eq_some.mp hx
    obtain ⟨mark, -, rfl⟩ := Option.map_eq_some_iff.mp hx
    exact absurd h (hplain (by decide))
  case word =>
    intro x hx h
    obtain ⟨ho, ⟨⟩⟩ := Option.ite_none_right_eq_some.mp hx
    split at h
    · next kind length hm => exact absurd h (hplain (hliteral (markedLiteral?_eq_some hl hm).1))
    · split at h
      · refine .inr ⟨ho, rest.takeWhile l.continuesWord, _, ?_, fun x hx => List.mem_takeWhile_imp hx, Except.ok.inj h⟩
        exact (List.prefix_iff_eq_append.mp (List.takeWhile_prefix l.continuesWord)).symm
      · simp only [Reading.plain, Except.ok.injEq, Reading.mk.injEq, Role.token.injEq] at h
        split at h <;> simp at h
  case number =>
    rintro r hr ⟨⟩
    obtain ⟨-, he⟩ := Option.ite_none_right_eq_some.mp hr
    simp [Reading.plain] at he
  case string =>
    intro x hx h
    obtain ⟨-, ⟨⟩⟩ := Option.ite_none_right_eq_some.mp hx
    exact absurd h (hplain (by decide))
  case otherLiteral =>
    intro x hx h
    obtain ⟨d, hd, rfl⟩ := Option.map_eq_some_iff.mp hx
    split at h
    · simp [Reading.plain] at h
    · exact absurd h (hplain (hliteral (otherLiterals_of_builtin hl (List.mem_of_find?_eq_some hd)).2))
  case operator =>
    intro h
    rw [readOperator] at h
    split at h
    · split at h
      · exact absurd h (by simp)
      · simp [Reading.plain] at h
    · simp [Reading.plain] at h

lemma isShown_of_readToken {reach : ℕ} (hl : l ∈ Language.builtin)
    (h : readToken l lineStart c rest = .ok ⟨.token .directive image reach, k⟩) (hi : i ≤ k) :
    IsShown image (c :: rest) i ∨ l.preprocessor = true ∧ IsBroken (c :: rest) i := by
  rcases readToken_eq_directive hl h with ⟨hp, rfl, hd⟩ | ⟨-, tail, behind, rfl, -, hd⟩
  · simp only [Draft.reading, Reading.mk.injEq, Role.token.injEq] at hd
    obtain ⟨⟨-, rfl, -⟩, rfl⟩ := hd
    rcases i with _ | i
    · refine .inl (isShown_of_mem rfl (List.mem_reverse.mpr ?_))
      exact reversed_subset_preprocessorLine _ _ _ List.mem_cons_self
    · have hfirst : (Draft.ofText '#' []).more + i < (preprocessorLine false (.ofText '#' []) rest).more := by
        have hmore : (Draft.ofText '#' []).more = 0 := rfl
        omega
      rcases isShown_preprocessorLine false (.ofText '#' []) rest i hfirst with hs | hb
      · exact .inl (hs.reverse.cons '#')
      · exact .inr ⟨hp, hb.cons '#'⟩
  · simp only [Draft.reading, Reading.mk.injEq, Role.token.injEq] at hd
    obtain ⟨⟨-, rfl, -⟩, rfl⟩ := hd
    exact .inl (isShown_ofText l hi).reverse

end CodeClones.Source
