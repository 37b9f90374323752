import CodeClones.Proofs.Source.Pieces
import CodeClones.Proofs.Source.Segments

/-! What is left of a text without its blanks and its line continuations. A blank in a string is left if quotes are
tracked. -/

namespace CodeClones.Source

variable {l : Language} {lineStart tracked : Bool} {n reach : ℕ} {c quote : Char}
  {r r' s t z behind body body' mark : List Char} {ss : List Segment}

/-- What stands behind the opening quote of a string that is closed on its line. -/
inductive IsString (quote : Char) : List Char → Prop
  | close : IsString quote [quote]
  | escape {e : Char} {body : List Char} : e ≠ '\n' → IsString quote body → IsString quote ('\\' :: e :: body)
  | cons {c : Char} {body : List Char} : c ≠ '\n' → c ≠ '\\' → c ≠ quote → IsString quote body →
      IsString quote (c :: body)

def OpensLineEnd (s : List Char) : Prop := ['\n'] <+: s ∨ ['\r', '\n'] <+: s

instance (s : List Char) : Decidable (OpensLineEnd s) := inferInstanceAs (Decidable (_ ∨ _))

def IsTracked (tracked : Bool) (c : Char) : Prop := tracked = true ∧ isDirectiveQuote c = true

def IsOrdinary (tracked : Bool) (c : Char) : Prop := Text.isBlank c = false ∧ ¬ IsTracked tracked c

instance (tracked : Bool) (c : Char) : Decidable (IsOrdinary tracked c) :=
  inferInstanceAs (Decidable (_ ∧ ¬ (_ ∧ _)))

inductive Strips (tracked : Bool) : List Char → List Char → Prop
  | nil : Strips tracked [] []
  | blank {c : Char} {s r : List Char} : Text.isBlank c = true → Strips tracked s r → Strips tracked (c :: s) r
  | continuation {s r : List Char} : OpensLineEnd s → Strips tracked s r → Strips tracked ('\\' :: s) r
  | plain {c : Char} {s r : List Char} : IsOrdinary tracked c → ¬ (c = '\\' ∧ OpensLineEnd s) → Strips tracked s r →
      Strips tracked (c :: s) (c :: r)
  | quoted {quote : Char} {body s r : List Char} : IsTracked tracked quote → IsString quote body →
      Strips tracked s r → Strips tracked (quote :: (body ++ s)) (quote :: (body ++ r))

/-! ### Strings -/

lemma IsString.getLast? (h : IsString quote body) : body.getLast? = some quote := by
  induction h with
  | close => rfl
  | escape he h ih => rw [List.getLast?_cons_cons, List.getLast?_cons, ih]; rfl
  | cons hn hb hq h ih => rw [List.getLast?_cons, ih]; rfl

lemma IsTracked.isBlank (h : IsTracked tracked c) : Text.isBlank c = false ∧ c ≠ '\\' := by
  have hquotes : ∀ x ∈ ['"', '\'', '\x60'], Text.isBlank x = false ∧ x ≠ '\\' :=
    List.all_iff_forall_prop.mp (by decide)
  exact hquotes c (by simpa [isDirectiveQuote, or_assoc] using h.2)

lemma IsString.quotedLength (h : IsString quote body) (ht : IsTracked tracked quote) (n reach : ℕ) (s : List Char) :
    (quotedLength quote n reach (body ++ s)).1 = n + body.length := by
  obtain ⟨hblank, hescape⟩ := ht.isBlank
  have hline : quote ≠ '\n' := by
    rintro rfl
    exact absurd hblank (by decide)
  induction h generalizing n reach with
  | close =>
    rw [List.singleton_append, Source.quotedLength.eq_def]
    dsimp only
    rw [if_neg hline, if_neg hescape, if_pos rfl, List.length_singleton]
  | @escape e body he h ih =>
    rw [List.cons_append, List.cons_append, Source.quotedLength, if_neg (by decide), if_pos rfl, if_neg he, ih,
      List.length_cons, List.length_cons]
    omega
  | @cons c body hn hb hq h ih =>
    rw [List.cons_append, Source.quotedLength.eq_def]
    dsimp only
    rw [if_neg hn, if_neg hb, if_neg hq, ih, List.length_cons]
    omega

lemma IsString.eq_of_append (h : IsString quote body) (h' : IsString quote body') (ht : IsTracked tracked quote)
    (he : body ++ s = body' ++ t) : body = body' ∧ s = t := by
  have hlength := h.quotedLength ht 0 0 s
  rw [he, h'.quotedLength ht 0 0 t] at hlength
  exact List.append_inj he (by omega)

/-! ### Inversion -/

lemma strips_blank (hc : Text.isBlank c = true) : Strips tracked (c :: s) r ↔ Strips tracked s r := by
  refine ⟨fun h => ?_, .blank hc⟩
  cases h with
  | blank _ h => exact h
  | continuation _ h => exact absurd hc (by decide)
  | plain hp => exact absurd hc (by simp [hp.1])
  | quoted ht => exact absurd hc (by simp [ht.isBlank.1])

lemma strips_continuation (hs : OpensLineEnd s) : Strips tracked ('\\' :: s) r ↔ Strips tracked s r := by
  refine ⟨fun h => ?_, .continuation hs⟩
  cases h with
  | blank hb => exact absurd hb (by decide)
  | continuation _ h => exact h
  | plain _ hc => exact absurd ⟨rfl, hs⟩ hc
  | quoted ht => exact absurd rfl ht.isBlank.2

lemma strips_plain (hp : IsOrdinary tracked c) (hc : ¬ (c = '\\' ∧ OpensLineEnd s)) :
    Strips tracked (c :: s) r ↔ ∃ r', r = c :: r' ∧ Strips tracked s r' := by
  refine ⟨fun h => ?_, ?_⟩
  · cases h with
    | blank hb => exact absurd hb (by simp [hp.1])
    | continuation hs => exact absurd ⟨rfl, hs⟩ hc
    | plain _ _ h => exact ⟨_, rfl, h⟩
    | quoted ht => exact absurd ht hp.2
  · rintro ⟨r', rfl, h⟩
    exact .plain hp hc h

lemma strips_quote (ht : IsTracked tracked c) : Strips tracked (c :: s) r ↔
    ∃ body t r', s = body ++ t ∧ IsString c body ∧ r = c :: (body ++ r') ∧ Strips tracked t r' := by
  refine ⟨fun h => ?_, ?_⟩
  · cases h with
    | blank hb => exact absurd hb (by simp [ht.isBlank.1])
    | continuation => exact absurd rfl ht.isBlank.2
    | plain hp => exact absurd ht hp.2
    | quoted _ hbody h => exact ⟨_, _, _, rfl, hbody, rfl, h⟩
  · rintro ⟨body, t, r', rfl, hbody, rfl, h⟩
    exact .quoted ht hbody h

lemma Strips.unique (h : Strips tracked s r) (h' : Strips tracked s r') : r = r' := by
  induction h generalizing r' with
  | nil => cases h'; rfl
  | blank hc h ih => exact ih ((strips_blank hc).mp h')
  | continuation hs h ih => exact ih ((strips_continuation hs).mp h')
  | plain hp hc h ih =>
    obtain ⟨r', rfl, hr⟩ := (strips_plain hp hc).mp h'
    rw [ih hr]
  | quoted ht hbody h ih =>
    obtain ⟨body', t, r', he, hbody', rfl, hr⟩ := (strips_quote ht).mp h'
    obtain ⟨rfl, rfl⟩ := hbody.eq_of_append hbody' ht he
    rw [ih hr]

/-! ### Tokens -/

def Segment.significant (s : Segment) (behind : List Char) : List Char :=
  if s.isToken then if s.text.getLast? = some '\\' ∧ OpensLineEnd behind then s.text.dropLast else s.text else []

def significant : List Segment → List Char
  | [] => []
  | s :: ss => s.significant (textOf ss) ++ significant ss

/-- A text without blanks and quotes that are tracked, or a string that is closed on its line, with a mark in front. -/
inductive IsLegible (tracked : Bool) : List Char → Prop
  | plain {s : List Char} : (∀ c ∈ s, IsOrdinary tracked c) → IsLegible tracked s
  | quoted {mark body : List Char} {quote : Char} : (∀ c ∈ mark, IsOrdinary tracked c) → IsTracked tracked quote →
      IsString quote body → IsLegible tracked (mark ++ quote :: body)

def Segment.IsLegible (tracked : Bool) (s : Segment) : Prop :=
  s.role ≠ .comment ∧ (s.isToken = true → Source.IsLegible tracked s.text)

lemma not_opensLineEnd (hc : Text.isBlank c = false) (s : List Char) : ¬ OpensLineEnd (c :: s) := by
  rintro (⟨t, ht⟩ | ⟨t, ht⟩) <;> obtain rfl := (List.cons.inj ht).1 <;> exact absurd hc (by decide)

lemma strips_append_plain (hs : ∀ c ∈ s, IsOrdinary tracked c) (h : Strips tracked z r) :
    Strips tracked (s ++ z) ((if s.getLast? = some '\\' ∧ OpensLineEnd z then s.dropLast else s) ++ r) := by
  induction s with
  | nil => simpa using h
  | cons c s ih =>
    obtain ⟨hc, hs⟩ := List.forall_mem_cons.mp hs
    cases s with
    | nil =>
      by_cases hz : c = '\\' ∧ OpensLineEnd z
      · obtain ⟨rfl, hz⟩ := hz
        simpa [hz] using h.continuation hz
      · simpa [hz] using h.plain hc hz
    | cons e s =>
      have hz : ¬ (c = '\\' ∧ OpensLineEnd (e :: s ++ z)) := fun hz =>
        not_opensLineEnd (hs e List.mem_cons_self).1 _ hz.2
      rw [List.getLast?_cons_cons, List.dropLast_cons_cons]
      have := (ih hs).plain hc hz
      split at this <;> simpa [*] using this

lemma strips_append_legible (hs : IsLegible tracked s) (h : Strips tracked z r) :
    Strips tracked (s ++ z) ((if s.getLast? = some '\\' ∧ OpensLineEnd z then s.dropLast else s) ++ r) := by
  cases hs with
  | plain hs => exact strips_append_plain hs h
  | @quoted mark body quote hmark ht hbody =>
    have hlast : (mark ++ quote :: body).getLast? = some quote := by
      rw [List.getLast?_append_of_ne_nil _ (List.cons_ne_nil _ _), List.getLast?_cons, hbody.getLast?]
      rfl
    have := strips_append_plain hmark (h.quoted ht hbody)
    rw [if_neg fun hz => not_opensLineEnd ht.isBlank.1 _ hz.2] at this
    rw [if_neg fun hz => ht.isBlank.2 (Option.some.inj (hlast.symm.trans hz.1))]
    simpa using this

lemma strips_textOf (h : AreRead l lineStart ss behind) (hs : ∀ s ∈ ss, s.IsLegible tracked) :
    Strips tracked (textOf ss) (significant ss) := by
  induction ss generalizing lineStart with
  | nil => exact .nil
  | cons s ss ih =>
    obtain ⟨⟨c, u, htext, hr⟩, h⟩ := h
    obtain ⟨hlegible, hs⟩ := List.forall_mem_cons.mp hs
    have ih := ih h hs
    rw [textOf_cons, significant, Segment.significant]
    split
    · next ht => exact strips_append_legible (hlegible.2 ht) ih
    · next ht =>
      obtain ⟨role, text⟩ := s
      cases role with
      | token => exact absurd rfl ht
      | comment => exact absurd rfl hlegible.1
      | blank =>
        obtain ⟨hc, hu⟩ := read_eq_blank hr
        obtain rfl := List.length_eq_zero_iff.mp hu
        obtain rfl : text = [c] := htext
        exact ih.blank hc

end CodeClones.Source
