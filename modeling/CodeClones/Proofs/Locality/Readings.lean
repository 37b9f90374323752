import CodeClones.Proofs.Locality.Directives

/-! A reading that ends in front of a place is the same with another text behind the place, if neither text goes on
with what stands before it. -/

namespace CodeClones.Source

variable {l : Language} {lineStart : Bool} {c : Char} {n m k depth marks : ℕ} {u z z' : List Char} {kind : Kind}
  {opening closing : Char} {word : String}

/-! ### Lengths -/

/-- A length up to `m` is measured again, and what fails does not fail because of a single character. -/
structure SettledLength (m : ℕ) (x y : Except Failure ℕ) : Prop where
  ok : ∀ k, x = .ok k → k ≤ m → y = .ok k
  fault : ∀ f, x = .error f → ∀ c, f.fault ≠ .unexpected c

namespace SettledLength

variable {x y : Except Failure ℕ}

lemma of_ok (k m : ℕ) : SettledLength m (.ok k) (.ok k) := ⟨fun _ h _ => h, by simp⟩

lemma of_extent {e e' : Extent} (h : e.length ≤ m → e' = e) (strict : Bool) {fault : Fault}
    (hf : ∀ c, fault ≠ .unexpected c) : SettledLength m (e.settle strict fault) (e'.settle strict fault) := by
  cases e with
  | closed k =>
    refine ⟨fun k' hk hle => ?_, fun f he => absurd he (by simp [Extent.settle])⟩
    obtain rfl := Except.ok.inj hk
    rw [h hle]
    rfl
  | unclosed k =>
    cases strict with
    | true =>
      refine ⟨fun k' hk => absurd hk (by simp [Extent.settle]), fun f he => ?_⟩
      obtain rfl := Except.error.inj he
      exact hf
    | false =>
      refine ⟨fun k' hk hle => ?_, fun f he => absurd he (by simp [Extent.settle])⟩
      obtain rfl := Except.ok.inj hk
      rw [h hle]
      rfl

lemma map_add (h : SettledLength m x y) (n : ℕ) : SettledLength (n + m) (x.map (n + ·)) (y.map (n + ·)) := by
  cases x with
  | ok k =>
    refine ⟨fun k' hk hle => ?_, fun f he => absurd he (by simp [Except.map])⟩
    obtain rfl := Except.ok.inj hk
    rw [h.ok k rfl (Nat.le_of_add_le_add_left hle)]
    rfl
  | error f => exact ⟨fun k hk => absurd hk (by simp [Except.map]), h.fault⟩

end SettledLength

/-! ### Brackets -/

lemma le_of_balancedLength (hl : l ∈ Language.builtin) (hc : Text.isBlank closing = false)
    (h : balancedLength l opening closing depth n u = .ok k) : n ≤ k := by
  have := measures_balancedLength hl hc opening depth n u
  rw [h] at this
  exact this.le.1

lemma lt_of_balancedLength (hl : l ∈ Language.builtin) (hc : Text.isBlank closing = false) (hu : u ≠ [])
    (h : balancedLength l opening closing depth n u = .ok k) : n < k := by
  obtain ⟨c, u, rfl⟩ := List.exists_cons_of_ne_nil hu
  rw [balancedLength] at h
  split_ifs at h
  · split at h
    · exact Nat.lt_of_lt_of_le (by omega) (le_of_balancedLength hl hc h)
    · exact absurd h (by simp)
  · split at h <;> exact Nat.lt_of_lt_of_le (by omega) (le_of_balancedLength hl hc h)
  · exact le_of_balancedLength hl hc h
  · exact (Except.ok.inj h).le
  · exact le_of_balancedLength hl hc h
  · exact le_of_balancedLength hl hc h

lemma mark_of_quote (hl : l ∈ Language.builtin) (hc : l.quotes.contains c = true) : c ∈ markCharacters := by
  rcases quotes_of_builtin hl (List.contains_iff_mem.mp hc) with rfl | rfl <;> decide

lemma balancedLength_append (hl : l ∈ Language.builtin) (hc : Text.isBlank closing = false) (h : Exchange l u z z')
    (hk : balancedLength l opening closing depth n (u ++ z) = .ok k) (hn : k ≤ n + u.length) :
    balancedLength l opening closing depth n (u ++ z') = .ok k := by
  induction hm : u.length using Nat.strongRecOn generalizing u depth n with
  | ind m ih =>
    cases u with
    | nil => exact absurd hn (Nat.not_le.mpr (lt_of_balancedLength hl hc h.nonempty hk))
    | cons c u =>
      rw [List.length_cons] at hn hm
      rw [List.cons_append, balancedLength] at hk ⊢
      by_cases hq : l.quotes.contains c = true
      · -- The brackets are closed in front of the place, so a string inside them is as well.
        rw [if_pos hq] at hk ⊢
        have hliteral : ∀ m, (Extent.literal (l.stringDelimiter c) 0 (u ++ z)).length = m → m ≤ u.length →
            Extent.literal (l.stringDelimiter c) 0 (u ++ z') = Extent.literal (l.stringDelimiter c) 0 (u ++ z) := by
          rintro m rfl hle
          exact Extent.literal_append h.tail (mark_of_quote hl hq) (by omega)
        have hdrop : ∀ m, m ≤ u.length → balancedLength l opening closing depth (n + 1 + m) ((u ++ z).drop m) = .ok k →
            balancedLength l opening closing depth (n + 1 + m) ((u ++ z').drop m) = .ok k := by
          intro m hle hk
          rw [List.drop_append_of_le_length hle] at hk ⊢
          refine ih _ ?_ (h.tail.of_drop m) hk ?_ rfl <;> rw [List.length_drop] <;> omega
        split at hk
        · next m he =>
          have hle := le_of_balancedLength hl hc hk
          rw [hliteral m (by rw [he]; rfl) (by omega), he]
          exact hdrop m (by omega) hk
        · next m he =>
          split_ifs at hk with hs
          have hle := le_of_balancedLength hl hc hk
          rw [hliteral m (by rw [he]; rfl) (by omega), he]
          dsimp only
          rw [if_neg hs]
          exact hdrop m (by omega) hk
      · rw [if_neg hq] at hk ⊢
        split_ifs at hk ⊢
        · exact ih u.length (by omega) h.tail hk (by omega) rfl
        · exact hk
        · exact ih u.length (by omega) h.tail hk (by omega) rfl
        · exact ih u.length (by omega) h.tail hk (by omega) rfl

lemma fault_balancedLength {f : Failure} (h : balancedLength l opening closing depth n u = .error f) :
    f.fault = .openMetadata ∨ f.fault = .openLiteral := by
  fun_induction balancedLength l opening closing depth n u with
  | case1 => exact .inl (by rw [← Except.error.inj h])
  | case2 => exact absurd h (by simp)
  | case3 _ _ _ _ _ _ _ ih => exact ih h
  | case4 => exact .inr (by rw [← Except.error.inj h])
  | case5 _ _ _ _ _ _ _ _ ih => exact ih h
  | case6 _ _ _ _ ih => exact ih h
  | case7 => exact absurd h (by simp)
  | case8 _ _ _ _ _ _ ih => exact ih h
  | case9 _ _ _ _ _ _ _ ih => exact ih h

lemma settled_balancedLength (hl : l ∈ Language.builtin) (hc : Text.isBlank closing = false) (h : Exchange l u z z')
    (opening : Char) (depth n : ℕ) : SettledLength (n + u.length)
      (balancedLength l opening closing depth n (u ++ z)) (balancedLength l opening closing depth n (u ++ z')) where
  ok _ hk hn := balancedLength_append hl hc h hk hn
  fault f hf c hc := by
    rcases fault_balancedLength hf with hf | hf <;> rw [hf] at hc <;> exact absurd hc (by simp)

/-! ### Readings -/

structure Settled (m : ℕ) (x y : Except Failure Reading) : Prop where
  ok : ∀ r, x = .ok r → r.more ≤ m → y = .ok r
  unexpected : ∀ f c, x = .error f → f.fault = .unexpected c → y = x

lemma Settled.refl (m : ℕ) (x : Except Failure Reading) : Settled m x x := ⟨fun _ h _ => h, fun _ _ _ _ => rfl⟩

lemma SettledLength.settled {x y : Except Failure ℕ} (h : SettledLength m x y) {reading reading' : ℕ → Reading}
    (hr : ∀ k, (reading k).more = k) (heq : ∀ k ≤ m, reading' k = reading k) :
    Settled m (x.map reading) (y.map reading') := by
  cases x with
  | ok k =>
    refine ⟨fun r hk hle => ?_, fun f c he => absurd he (by simp [Except.map])⟩
    obtain rfl := Except.ok.inj hk
    rw [hr] at hle
    rw [h.ok k rfl hle]
    exact congrArg Except.ok (heq k hle)
  | error f =>
    refine ⟨fun r hk => absurd hk (by simp [Except.map]), fun f' c he hc => ?_⟩
    obtain rfl := Except.error.inj he
    exact absurd hc (h.fault f rfl c)

lemma SettledLength.settled_plain {x y : Except Failure ℕ} (h : SettledLength u.length x y) (kind : Kind) (c : Char)
    (z z' : List Char) : Settled u.length (x.map (.plain kind c (u ++ z))) (y.map (.plain kind c (u ++ z'))) :=
  h.settled (fun _ => rfl) fun k hk => by rw [plain_append kind c z hk, plain_append kind c z' hk]

lemma rel_orElse {α β : Type} {R : α → β → Prop} {a b : Option α} {a' b' : Option β} (h : Option.Rel R a a')
    (h' : Option.Rel R b b') : Option.Rel R (a <|> b) (a' <|> b') := by
  cases h with
  | some h => exact .some h
  | none => exact h'

lemma rel_getD {α β : Type} {R : α → β → Prop} {a : Option α} {a' : Option β} {x : α} {y : β}
    (h : Option.Rel R a a') (h' : R x y) : R (a.getD x) (a'.getD y) := by
  cases h with
  | some h => exact h
  | none => exact h'

lemma not_breaks_sign (hl : l ∈ Language.builtin) (hw : l.rawStringMarks.contains word = true) : ¬ Breaks l '#' := by
  rintro (hb | ⟨hb, -⟩ | ⟨-, hb⟩)
  · exact absurd hb (by decide)
  · exact absurd hb (by decide)
  · have hnil := (comments_of_builtin hl).2.2.2.resolve_left (not_not.mpr hb)
    simp [hnil] at hw

lemma rawStringExtent?_append (hs : ¬ Breaks l '#') (h : Exchange l u z z') :
    Option.Rel (fun e e' => e.length ≤ u.length → e' = e) (rawStringExtent? (u ++ z)) (rawStringExtent? (u ++ z')) := by
  have hmarks : ∀ x, Breaks l x → decide (x = '#') = false := fun x hx => by
    simpa using fun he : x = '#' => hs (he ▸ hx)
  have hle := length_takeWhile_le (· = '#') u
  rw [rawStringExtent?, rawStringExtent?, h.breaking.takeWhile_append hmarks, h.breaking'.takeWhile_append hmarks]
  generalize (u.takeWhile (· = '#')).length = marks at hle
  simp only [List.drop_append_of_le_length hle, h.breaking.head?_append (c := '"') (by decide),
    h.breaking'.head?_append (c := '"') (by decide)]
  split
  · next hq =>
    have hlt : marks + 1 ≤ u.length := by
      obtain ⟨v, hv⟩ := List.head?_eq_some_iff.mp hq
      have := congrArg List.length hv
      rw [List.length_drop, List.length_cons] at this
      omega
    rw [List.drop_append_of_le_length hlt, List.drop_append_of_le_length hlt]
    refine .some fun hn => Extent.rawString_append (h.of_drop _) (.inr hs) (hn.trans ?_)
    rw [List.length_drop]
    omega
  · exact .none

lemma markedLiteral?_of_breaking (hl : l ∈ Language.builtin) (hz : Breaking l z) (word : String) (n : ℕ) :
    markedLiteral? l word n z = none := by
  cases z with
  | nil => rfl
  | cons x z =>
    have hx := hz x rfl
    have hraw : (if l.rawStringMarks.contains word then rawStringExtent? (x :: z) else none) = none := by
      split
      · next hw =>
        have hsign : x ≠ '#' := fun he => not_breaks_sign hl hw (he ▸ hx)
        simp [rawStringExtent?, hsign, hx.ne (c := '"') (by decide)]
      · rfl
    have hq : l.quotes.contains x = false := by
      cases hq : l.quotes.contains x with
      | false => rfl
      | true => exact absurd rfl (hx.ne (mark_of_quote hl hq))
    simp only [markedLiteral?, hraw, hq, hx.ne (c := '\'') (by decide), Bool.and_false, decide_false,
      Bool.false_eq_true, if_false]

lemma markedLiteral?_append (hl : l ∈ Language.builtin) (h : Exchange l u z z') (word : String) (n : ℕ) :
    Option.Rel (fun a b => a.1 = b.1 ∧ SettledLength (n + u.length) a.2 b.2) (markedLiteral? l word n (u ++ z))
      (markedLiteral? l word n (u ++ z')) := by
  cases u with
  | nil =>
    rw [List.nil_append, List.nil_append, markedLiteral?_of_breaking hl h.breaking,
      markedLiteral?_of_breaking hl h.breaking']
    exact .none
  | cons q u =>
    have hraw : Option.Rel (fun e e' => e.length ≤ (q :: u).length → e' = e)
        (if l.rawStringMarks.contains word then rawStringExtent? (q :: u ++ z) else none)
        (if l.rawStringMarks.contains word then rawStringExtent? (q :: u ++ z') else none) := by
      split
      · next hw => exact rawStringExtent?_append (not_breaks_sign hl hw) h
      · exact .none
    rw [List.cons_append, List.cons_append] at hraw ⊢
    simp only [markedLiteral?]
    generalize (if l.rawStringMarks.contains word then rawStringExtent? (q :: (u ++ z)) else none) = e,
      (if l.rawStringMarks.contains word then rawStringExtent? (q :: (u ++ z')) else none) = e' at hraw
    cases hraw with
    | some he => exact .some ⟨rfl, (SettledLength.of_extent he _ (by simp)).map_add n⟩
    | none =>
      dsimp only
      split
      · next hq =>
        rw [Bool.and_eq_true] at hq
        refine .some ⟨rfl, .of_extent (fun hn => ?_) _ (by simp)⟩
        rw [List.length_cons] at hn
        exact Extent.string_append h.tail (mark_of_quote hl hq.2) (by omega)
      · split
        · refine .some ⟨rfl, .of_extent (fun hn => ?_) _ (by simp)⟩
          rw [List.length_cons] at hn
          exact Extent.literal_append h.tail (by decide) (by omega)
        · exact .none

variable (hl : l ∈ Language.builtin) (h : Exchange l (c :: u) z z')

include h

lemma rel_verbatimString : Option.Rel (Settled u.length) (readVerbatimString? l c (u ++ z))
    (readVerbatimString? l c (u ++ z')) := by
  rw [readVerbatimString?, readVerbatimString?, h.breaking.verbatimMark?_append, h.breaking'.verbatimMark?_append]
  split
  · cases hmark : verbatimMark? c u with
    | none => exact .none
    | some mark =>
      obtain ⟨marks, verbatim⟩ := mark
      refine .some (SettledLength.settled_plain ?_ .string c z z')
      obtain ⟨behind, hu, hmarks⟩ := verbatimMark?_eq_some hmark
      have hle : marks + 1 ≤ u.length := by
        rw [hu, List.length_append, hmarks, List.length_cons]
        omega
      rw [List.drop_append_of_le_length hle, List.drop_append_of_le_length hle]
      have hlen : u.length = marks + 1 + (u.drop (marks + 1)).length := by
        rw [List.length_drop]
        omega
      split
      · exact .of_extent (fun hn => Extent.verbatimString_append (h.tail.of_drop _) (by rwa [← hlen])) _ (by simp)
      · exact .of_extent (fun hn => Extent.literal_append (h.tail.of_drop _) (by decide) (by rwa [← hlen])) _ (by simp)
  · exact .none

include hl

lemma rel_preprocessorLine : Option.Rel (Settled u.length) ((readPreprocessorLine? l lineStart c (u ++ z)).map .ok)
    ((readPreprocessorLine? l lineStart c (u ++ z')).map .ok) := by
  rw [readPreprocessorLine?, readPreprocessorLine?]
  split
  · next hp =>
    simp only [Bool.and_eq_true] at hp
    refine .some ⟨fun r hr hle => ?_, by simp⟩
    obtain rfl := Except.ok.inj hr
    rw [preprocessorLine_append hl (lineComment_of_preprocessor hl hp.1.1) h.tail (hle.trans (Nat.zero_add _).ge)]
  · exact .none

lemma rel_namedLength : Option.Rel (SettledLength u.length) (namedLength? l (u ++ z)) (namedLength? l (u ++ z')) := by
  rw [namedLength?, namedLength?, h.breaking.metadataName?_append, h.breaking'.metadataName?_append]
  cases hname : metadataName? l u with
  | none => exact .none
  | some name =>
    refine .some ?_
    have hle : name.length ≤ u.length := by
      rw [(metadataName?_eq_some hname).1]
      exact length_takeWhile_le _ u
    dsimp only
    simp only [List.drop_append_of_le_length hle, h.breaking.head?_append (c := '(') (by decide),
      h.breaking'.head?_append (c := '(') (by decide)]
    split
    · have := settled_balancedLength hl (show Text.isBlank ')' = false by decide) (h.tail.of_drop name.length) '(' 0
        name.length
      rwa [List.length_drop, Nat.add_sub_cancel' hle] at this
    · exact .of_ok _ _

lemma rel_bracketedLength :
    Option.Rel (SettledLength u.length) (bracketedLength? l (u ++ z)) (bracketedLength? l (u ++ z')) := by
  rw [bracketedLength?, bracketedLength?, h.breaking.isPrefixOf_append_marks ['['] (by decide),
    h.breaking'.isPrefixOf_append_marks ['['] (by decide),
    h.breaking.isPrefixOf_append_marks ['!', '['] (by decide),
    h.breaking'.isPrefixOf_append_marks ['!', '['] (by decide)]
  split
  · have := settled_balancedLength hl (show Text.isBlank ']' = false by decide) h.tail '[' 0 0
    exact .some (by rwa [Nat.zero_add] at this)
  · split
    · next hp =>
      obtain ⟨v, rfl⟩ := List.isPrefixOf_iff_prefix.mp hp
      have := settled_balancedLength hl (show Text.isBlank ']' = false by decide) (h.tail.of_drop 1) '[' 0 1
      exact .some (by simpa [Nat.add_comm] using this)
    · exact .none

lemma rel_metadata : Option.Rel (Settled u.length) (readMetadata? l lineStart c (u ++ z))
    (readMetadata? l lineStart c (u ++ z')) := by
  have hlength : Option.Rel (SettledLength u.length) (metadataLength? l lineStart c (u ++ z))
      (metadataLength? l lineStart c (u ++ z')) := by
    rw [metadataLength?, metadataLength?]
    split
    · exact .none
    · split
      · exact rel_namedLength hl h
      · exact .none
    · split
      · exact rel_namedLength hl h
      · exact .none
    · split
      · exact rel_bracketedLength hl h
      · exact .none
  rw [readMetadata?, readMetadata?]
  generalize metadataLength? l lineStart c (u ++ z) = x, metadataLength? l lineStart c (u ++ z') = y at hlength
  cases hlength with
  | none => exact .none
  | some hlength =>
    refine .some (hlength.settled (fun _ => rfl) fun k hk => ?_)
    rw [List.take_append_of_le_length hk, List.take_append_of_le_length hk]

lemma rel_string : Option.Rel (Settled u.length) (readString? l c (u ++ z)) (readString? l c (u ++ z')) := by
  rw [readString?, readString?]
  split
  · next hq =>
    refine .some (SettledLength.settled_plain (.of_extent (fun hn => ?_) _ (by simp)) .string c z z')
    exact Extent.string_append h.tail (mark_of_quote hl hq) (by omega)
  · exact .none

lemma rel_otherLiteral :
    Option.Rel (Settled u.length) (readOtherLiteral? l c (u ++ z)) (readOtherLiteral? l c (u ++ z')) := by
  rw [readOtherLiteral?, readOtherLiteral?, h.breaking.opensLifetime_append, h.breaking'.opensLifetime_append,
    h.breaking.takeWhile_append fun x hx => hx.continuesWord, h.breaking'.takeWhile_append fun x hx => hx.continuesWord]
  cases hd : l.otherLiterals.find? (·.quote = c) with
  | none => exact .none
  | some d =>
    refine .some ?_
    split
    · rw [plain_append _ c z (length_takeWhile_le _ u), plain_append _ c z' (length_takeWhile_le _ u)]
      exact .refl _ _
    · refine SettledLength.settled_plain (.of_extent (fun hn => ?_) _ (by simp)) d.kind c z z'
      refine Extent.literal_append h.tail ?_ (by omega)
      rcases (otherLiterals_of_builtin hl (List.mem_of_find?_eq_some hd)).1 with hq | hq <;> rw [hq] <;> decide

/-- A directive word at the head of a text that was part of an expression is still none with the new text. -/
def KeepsExpressions (l : Language) (c : Char) (u z z' : List Char) : Prop :=
  let word := u.takeWhile l.continuesWord
  l.directiveWords.contains (String.ofList (c :: word)) = true →
    opensDirective l (u.drop word.length ++ z) = false → opensDirective l (u.drop word.length ++ z') = false

lemma settled_directive (kind : Kind) (hn : n ≤ u.length)
    (hk : opensDirective l (u.drop n ++ z) = false → opensDirective l (u.drop n ++ z') = false) :
    Settled u.length
      (if opensDirective l (u.drop n ++ z)
        then .ok (statement l 0 false (.ofText c (u.take n)) (u.drop n ++ z)).reading
        else .ok (.plain kind c u n))
      (if opensDirective l (u.drop n ++ z')
        then .ok (statement l 0 false (.ofText c (u.take n)) (u.drop n ++ z')).reading
        else .ok (.plain kind c u n)) := by
  have hlen : n + (u.drop n).length = u.length := by
    rw [List.length_drop]
    omega
  have hmore : (Draft.ofText c (u.take n)).more = n := by simp [Draft.ofText, hn]
  by_cases ho : opensDirective l (u.drop n ++ z) = true
  · rw [if_pos ho]
    refine ⟨fun r hr hle => ?_, by simp⟩
    obtain rfl := Except.ok.inj hr
    replace hle : (statement l 0 false (.ofText c (u.take n)) (u.drop n ++ z)).more ≤
        (Draft.ofText c (u.take n)).more + (u.drop n).length := by rwa [hmore, hlen]
    have ho' : opensDirective l (u.drop n ++ z') = true := by
      by_cases hspace : (u.drop n).dropWhile isSpace = []
      · -- Only spaces stand in front of the place. The statement ends its line there, so it is no expression.
        have he := (takes_statement l 0 false (.ofText c (u.take n)) (u.drop n ++ z)).endsLine hle hl hspace
        rw [opensDirective_spaces l hspace]
        exact opensDirective_of_endsLine hl (h.endsLine he)
      · rwa [opensDirective_append l hspace] at ho ⊢
    rw [if_pos ho', statement_append hl (h.tail.of_drop n) hle]
  · rw [if_neg ho, if_neg (by simp [hk (by simpa using ho)])]
    exact .refl _ _

lemma rel_word (hk : KeepsExpressions l c u z z') :
    Option.Rel (Settled u.length) (readWord? l lineStart c (u ++ z)) (readWord? l lineStart c (u ++ z')) := by
  rw [readWord?, readWord?, h.breaking.takeWhile_append fun x hx => hx.continuesWord,
    h.breaking'.takeWhile_append fun x hx => hx.continuesWord]
  split
  · refine .some ?_
    have hle := length_takeWhile_le l.continuesWord u
    have htake : u.takeWhile l.continuesWord = u.take (u.takeWhile l.continuesWord).length :=
      List.prefix_iff_eq_take.mp (List.takeWhile_prefix _)
    rw [List.drop_append_of_le_length hle, List.drop_append_of_le_length hle, plain_append _ c z hle,
      plain_append _ c z' hle]
    have hmarked := markedLiteral?_append hl (h.tail.of_drop (u.takeWhile l.continuesWord).length)
      (String.ofList (c :: u.takeWhile l.continuesWord)) (u.takeWhile l.continuesWord).length
    rw [List.length_drop, Nat.add_sub_cancel' hle] at hmarked
    generalize markedLiteral? l (String.ofList (c :: u.takeWhile l.continuesWord)) (u.takeWhile l.continuesWord).length
      (u.drop (u.takeWhile l.continuesWord).length ++ z) = x at hmarked
    generalize markedLiteral? l (String.ofList (c :: u.takeWhile l.continuesWord)) (u.takeWhile l.continuesWord).length
      (u.drop (u.takeWhile l.continuesWord).length ++ z') = y at hmarked
    cases hmarked with
    | @some x y hmarked =>
      obtain ⟨kind, length⟩ := x
      obtain ⟨_, length'⟩ := y
      obtain ⟨rfl, hlength⟩ := hmarked
      exact hlength.settled_plain kind c z z'
    | none =>
      dsimp only
      cases lineStart with
      | false => exact .refl _ _
      | true =>
        cases hw : l.directiveWords.contains (String.ofList (c :: u.takeWhile l.continuesWord)) with
        | false => exact .refl _ _
        | true =>
          simp only [Bool.true_and]
          have := settled_directive hl h (if l.keywords.contains (String.ofList (c :: u.takeWhile l.continuesWord))
            then .keyword else .identifier) hle (hk hw)
          rwa [← htake] at this
  · exact .none

lemma settled_readToken (hk : KeepsExpressions l c u z z') :
    Settled u.length (readToken l lineStart c (u ++ z)) (readToken l lineStart c (u ++ z')) := by
  refine rel_getD ?_ ?_
  · refine rel_orElse (rel_preprocessorLine hl h) (rel_orElse (rel_metadata hl h) ?_)
    refine rel_orElse (rel_verbatimString h) (rel_orElse (rel_word hl h hk) (rel_orElse ?_ ?_))
    · rw [readNumber?_append h.breaking, readNumber?_append h.breaking']
      cases readNumber? c u with
      | none => exact .none
      | some r => exact .some (.refl _ _)
    · exact rel_orElse (rel_string hl h) (rel_otherLiteral hl h)
  · rw [readOperator_append h.breaking hl, readOperator_append h.breaking' hl]
    exact .refl _ _

omit hl in
lemma settled_lineComment : Settled u.length (.ok ⟨.comment, ((u ++ z).takeWhile (· ≠ '\n')).length⟩)
    (.ok ⟨.comment, ((u ++ z').takeWhile (· ≠ '\n')).length⟩) := by
  refine ⟨fun r hr hle => ?_, by simp⟩
  obtain rfl := Except.ok.inj hr
  suffices hsame : (u ++ z').takeWhile (· ≠ '\n') = (u ++ z).takeWhile (· ≠ '\n') by rw [hsame]
  dsimp only at hle
  rw [List.takeWhile_append] at hle
  rw [List.takeWhile_append, List.takeWhile_append]
  split
  · next hall =>
    rw [if_pos hall, List.length_append] at hle
    have hz : z.head? = some '\n' := by
      obtain ⟨x, z, rfl⟩ := List.exists_cons_of_ne_nil h.nonempty
      by_contra hx
      have hx' : x ≠ '\n' := fun he => hx (congrArg some he)
      rw [List.takeWhile_cons_of_pos (by simpa using hx'), List.length_cons] at hle
      omega
    have hline : ∀ s : List Char, s = [] ∨ s.head? = some '\n' → s.takeWhile (· ≠ '\n') = [] := by
      rintro s (rfl | hs)
      · rfl
      · obtain ⟨s, rfl⟩ := List.head?_eq_some_iff.mp hs
        simp
    rw [hline z (.inr hz), hline z' (h.lineFeed hz)]
  · rfl

lemma settled_read (hk : KeepsExpressions l c u z z') (lineStart : Bool) :
    Settled u.length (read l lineStart c (u ++ z)) (read l lineStart c (u ++ z')) := by
  have hblock : ∀ v, Breaking l v → l.opensBlockComment (c :: (u ++ v)) = l.opensBlockComment (c :: u) := by
    intro v hv
    simp only [Language.opensBlockComment, List.isPrefixOf_cons_cons,
      hv.isPrefixOf_append_marks ['*'] (by decide)]
  rw [read, read, h.opensLineComment_append hl, hblock z h.breaking, hblock z' h.breaking']
  split
  · exact .refl _ _
  · split
    · exact settled_lineComment h
    · split
      · next hb =>
        obtain ⟨-, rfl, v, rfl⟩ := slash_of_opensBlockComment hb
        refine SettledLength.settled (.of_extent (fun hn => ?_) _ (by simp)) (fun _ => rfl) fun _ _ => rfl
        refine Extent.blockComment_append h.nonempty ?_
        simpa [Nat.add_comm] using hn
      · exact settled_readToken hl h hk

end CodeClones.Source
