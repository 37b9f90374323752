import Mathlib
import CodeClones.Proofs.Source.Images
import CodeClones.Proofs.Source.Places

/-! What becomes of each character of a source text that is read to its end. -/

namespace CodeClones

namespace Source

variable {l : Language} {ss before behind : List Segment} {s s' : Segment} {t : Token} {i n n' file : ℕ}

def BelongsTo (ss : List Segment) (i : ℕ) (s : Segment) (n : ℕ) : Prop :=
  ∃ before behind, ss = before ++ s :: behind ∧ (textOf before).length ≤ i ∧
    i < (textOf before).length + s.text.length ∧ before.countP Segment.isToken = n

lemma BelongsTo.unique (h : BelongsTo ss i s n) (h' : BelongsTo ss i s' n') : s = s' ∧ n = n' := by
  obtain ⟨before, behind, rfl, hle, hlt, rfl⟩ := h
  obtain ⟨before', behind', he, hle', hlt', rfl⟩ := h'
  -- A segment that is a part of what stands before the other one would end before the character.
  rcases List.append_eq_append_iff.mp he with ⟨between, rfl, hs⟩ | ⟨between, rfl, hs⟩
  all_goals cases between with
  | nil =>
    obtain ⟨rfl, -⟩ := List.cons.inj hs
    simp
  | cons x between =>
    obtain ⟨rfl, -⟩ := List.cons.inj hs
    simp only [textOf_append, textOf_cons, List.length_append] at hle hle' hlt hlt'
    omega

lemma length_tokensOnto (file : ℕ) (p : Position) (ss : List Segment) :
    (tokensOnto file [] p ss).length = ss.countP Segment.isToken := by
  induction ss generalizing p with
  | nil => rfl
  | cons s ss ih =>
    obtain ⟨role, text⟩ := s
    rw [tokensOnto, tokensOnto_eq, List.length_append, ih, List.countP_cons]
    cases role <;> simp [Segment.token?, Segment.isToken, Nat.add_comm]

lemma getElem?_tokens_of_role {kind : Kind} {image : List Char} {reach : ℕ} (file : ℕ) (before behind : List Segment)
    (hr : s.role = .token kind image reach) :
    ∃ t, (tokens file (before ++ s :: behind))[before.countP Segment.isToken]? = some t ∧ t.kind = kind ∧
      t.image = some (String.ofList image) := by
  have ht : ∀ p, ∃ t, s.token? file p = some t ∧ t.kind = kind ∧ t.image = some (String.ofList image) := fun p => by
    simp [Segment.token?, hr]
  obtain ⟨t, ht, hkey⟩ := ht (before.foldl (fun p s => p.afterText s.text) .start)
  refine ⟨t, ?_, hkey⟩
  rw [tokens, tokensOnto_append, List.getElem?_append_right (length_tokensOnto _ _ _).le, length_tokensOnto,
    Nat.sub_self, tokensOnto, tokensOnto_eq, ht]
  rfl

end Source

open Source

namespace Language

variable {l : Language} {source : String} {file i : ℕ}

def ReadInto (l : Language) (source : String) (i n : ℕ) : Prop :=
  ∃ s, BelongsTo (cut l (dropByteOrderMark source.toList)).segments i s n ∧ s.isToken = true

inductive Keeps (l : Language) (source : String) (file i : ℕ) : Prop
  | blank {c : Char} (hc : (dropByteOrderMark source.toList)[i]? = some c) (hb : Text.isBlank c = true)
  | comment {s : Segment} {n : ℕ} (h : BelongsTo (cut l (dropByteOrderMark source.toList)).segments i s n)
      (hr : s.role = .comment)
  | continued (h : IsContinued (dropByteOrderMark source.toList) i)
  /-- It belongs to a single token, and the token shows it if it is a directive. -/
  | token {c : Char} {n : ℕ} {t : Token} (hn : ∀ m, ReadInto l source i m ↔ m = n)
      (ht : (l.tokenize source file {}).tokens[n]? = some t) (hc : (dropByteOrderMark source.toList)[i]? = some c)
      (hd : t.kind = .directive → Text.isBlank c = false → ∃ image, t.image = some image ∧ c ∈ image.toList)

/-- Character number `i` of a source text is lost in a line of the preprocessor. -/
structure Loses (l : Language) (source : String) (file i : ℕ) : Prop where
  preprocessor : l.preprocessor = true
  token : ∃ n t, (∀ m, ReadInto l source i m ↔ m = n) ∧ (l.tokenize source file {}).tokens[n]? = some t ∧
    t.kind = .directive
  broken : IsBroken (dropByteOrderMark source.toList) i

lemma readInto_iff {s : Segment} {n m : ℕ} (h : BelongsTo (cut l (dropByteOrderMark source.toList)).segments i s n)
    (hs : s.isToken = true) : ReadInto l source i m ↔ m = n := by
  constructor
  · rintro ⟨t, ht, -⟩
    exact (ht.unique h).2
  · rintro rfl
    exact ⟨s, h, hs⟩

/-- Of a source text that is read to its end nothing is lost, except where a line of the preprocessor is continued
behind a carriage return alone. -/
theorem keeps_or_loses (hl : l ∈ builtin) (herror : (l.tokenize source file {}).error = none)
    (hi : i < (dropByteOrderMark source.toList).length) : l.Keeps source file i ∨ l.Loses source file i := by
  obtain ⟨htext, hread, hstop⟩ := isCut_cut hl (dropByteOrderMark source.toList)
  have hunread : (cut l (dropByteOrderMark source.toList)).unread = [] := by
    rcases hstop with ⟨-, hu⟩ | ⟨f, c, u, hf, -⟩
    · exact hu
    · simp [tokenize_default, Cut.stream, hf] at herror
  rw [hunread, List.append_nil] at htext
  rw [hunread] at hread
  obtain ⟨before, s, behind, hs, hle, hlt⟩ := exists_segment_at (htext ▸ hi)
  obtain ⟨j, rfl⟩ := Nat.exists_eq_add_of_le hle
  rw [hs, areRead_append] at hread
  obtain ⟨-, ⟨c, u, hu, hc⟩, -⟩ := hread
  have hwhole : dropByteOrderMark source.toList = textOf before ++ (c :: (u ++ textOf behind)) := by
    rw [← htext, hs, textOf_append, textOf_cons, hu, List.cons_append]
  have hj : j ≤ u.length := by
    rw [hu, List.length_cons] at hlt
    omega
  have hb : BelongsTo (cut l (dropByteOrderMark source.toList)).segments ((textOf before).length + j) s _ :=
    ⟨before, behind, hs, hle, hlt, rfl⟩
  rw [List.append_nil] at hc
  cases hr : s.role with
  | blank =>
    rw [hr] at hc
    obtain ⟨hblank, hzero⟩ := read_eq_blank hc
    obtain rfl : j = 0 := by omega
    refine .inl (.blank ?_ hblank)
    rw [hwhole, List.getElem?_append_right (by omega)]
    simp
  | comment => exact .inl (.comment hb hr)
  | token kind image reach =>
    obtain ⟨t, ht, hkind, himage⟩ := getElem?_tokens_of_role file before behind hr
    have hn := fun m => readInto_iff (m := m) hb (by simp [Segment.isToken, hr])
    have ht' : (l.tokenize source file {}).tokens[before.countP Segment.isToken]? = some t := by
      rw [tokenize_default, ← ht, ← hs]
      rfl
    by_cases hd : kind = .directive
    · rw [hr, hd] at hc
      rcases isShown_of_readToken hl (read_eq_token hc).2.2.2 hj with h | ⟨hp, h⟩
      · obtain ⟨x, hx, h⟩ := hwhole ▸ h.append (textOf before)
        rcases h with h | h | h
        · exact .inl (.blank hx h)
        · exact .inl (.token hn ht' hx fun _ _ => ⟨_, himage, by rwa [String.toList_ofList]⟩)
        · exact .inl (.continued h)
      · exact .inr ⟨hp, ⟨_, t, hn, ht', hkind.trans hd⟩, hwhole ▸ h.append (textOf before)⟩
    · exact .inl (.token hn ht' (List.getElem?_eq_getElem hi) fun h => absurd (hkind.symm.trans h) hd)

theorem keeps_or_loses_c : Language.c ∈ builtin ∧ (Language.c.tokenize "#a\\\ry" 0 {}).error = none ∧
    4 < (dropByteOrderMark "#a\\\ry".toList).length ∧
    (Language.c.Keeps "#a\\\ry" 0 4 ∨ Language.c.Loses "#a\\\ry" 0 4) :=
  ⟨by decide +kernel, by cbv, by decide, keeps_or_loses (by decide +kernel) (by cbv) (by decide)⟩

theorem loses_behind_return : Language.c ∈ builtin ∧ (Language.c.tokenize "#a\\\ry" 0 {}).error = none ∧
    4 < (dropByteOrderMark "#a\\\ry".toList).length ∧ ¬ Language.c.Keeps "#a\\\ry" 0 4 := by
  have hcut : (cut .c (dropByteOrderMark "#a\\\ry".toList)).segments =
      [⟨.token .directive "#a".toList 2, "#a\\\ry".toList⟩] := by cbv
  have htokens : (Language.c.tokenize "#a\\\ry" 0 {}).tokens = [⟨.directive, some "#a", 0, ⟨1, 1⟩, ⟨1, 2⟩⟩] := by cbv
  refine ⟨by decide +kernel, by cbv, by decide, ?_⟩
  rintro (⟨hc, hb⟩ | ⟨⟨before, behind, hs, -⟩, hr⟩ | h | ⟨-, ht, hc, hd⟩)
  · obtain rfl := Option.some.inj hc
    exact absurd hb (by decide)
  · have hm : _ ∈ (cut .c (dropByteOrderMark "#a\\\ry".toList)).segments :=
      hs ▸ List.mem_append_right _ List.mem_cons_self
    rw [hcut, List.mem_singleton] at hm
    rw [hm] at hr
    exact absurd hr (by simp)
  · exact absurd h (by unfold IsContinued; decide)
  · rw [htokens] at ht
    obtain rfl := List.mem_singleton.mp (List.mem_of_getElem? ht)
    obtain rfl := Option.some.inj hc
    obtain ⟨image, hi, hm⟩ := hd rfl (by decide)
    obtain rfl := Option.some.inj hi
    exact absurd hm (by decide)

end Language

end CodeClones
