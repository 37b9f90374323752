import CodeClones.Proofs.Source.Readings
import CodeClones.Proofs.Success

/-! How blanks and comments are read, and that nothing else is read as one of them. -/

namespace CodeClones.Source

open Success

variable {l : Language} {lineStart : Bool} {c : Char} {k : ℕ} {u : List Char}

lemma role_of_readToken {r : Reading} (h : readToken l lineStart c u = .ok r) : ∃ kind image reach,
    r.role = .token kind image reach := by
  have hplain : ∀ {x : Except Failure ℕ} {kind}, x.map (Reading.plain kind c u) = .ok r → ∃ kind image reach,
      r.role = .token kind image reach := by
    intro x kind hx
    obtain ⟨k, -, rfl⟩ := map_eq_ok.mp hx
    exact ⟨_, _, _, rfl⟩
  revert h
  refine readToken_cases (P := fun x => x = .ok r → _) ?preprocessorLine ?metadata ?verbatimString ?word ?number ?string
    ?otherLiteral ?operator
  case preprocessorLine =>
    rintro r' hr ⟨⟩
    obtain ⟨-, ⟨⟩⟩ := Option.ite_none_right_eq_some.mp hr
    exact ⟨_, _, _, rfl⟩
  case metadata =>
    intro x hx h
    obtain ⟨length, -, rfl⟩ := Option.map_eq_some_iff.mp hx
    obtain ⟨k, -, rfl⟩ := map_eq_ok.mp h
    exact ⟨_, _, _, rfl⟩
  case verbatimString =>
    intro x hx h
    obtain ⟨-, hx⟩ := Option.ite_none_right_eq_some.mp hx
    obtain ⟨mark, -, rfl⟩ := Option.map_eq_some_iff.mp hx
    exact hplain h
  case word =>
    intro x hx h
    obtain ⟨-, ⟨⟩⟩ := Option.ite_none_right_eq_some.mp hx
    split at h
    · exact hplain h
    · split at h <;> obtain rfl := Except.ok.inj h <;> exact ⟨_, _, _, rfl⟩
  case number =>
    rintro r' hr ⟨⟩
    obtain ⟨-, ⟨⟩⟩ := Option.ite_none_right_eq_some.mp hr
    exact ⟨_, _, _, rfl⟩
  case string =>
    intro x hx h
    obtain ⟨-, ⟨⟩⟩ := Option.ite_none_right_eq_some.mp hx
    exact hplain h
  case otherLiteral =>
    intro x hx h
    obtain ⟨d, -, rfl⟩ := Option.map_eq_some_iff.mp hx
    split at h
    · obtain rfl := Except.ok.inj h
      exact ⟨_, _, _, rfl⟩
    · exact hplain h
  case operator =>
    intro h
    rw [readOperator] at h
    split at h
    · split at h
      · exact absurd h (by simp)
      · obtain rfl := Except.ok.inj h
        exact ⟨_, _, _, rfl⟩
    · obtain rfl := Except.ok.inj h
      exact ⟨_, _, _, rfl⟩

lemma read_eq_ok {r : Reading} (h : read l lineStart c u = .ok r) :
    Text.isBlank c = true ∧ r = ⟨.blank, 0⟩ ∨ Text.isBlank c = false ∧
      (l.opensLineComment (c :: u) = true ∧ r = ⟨.comment, (u.takeWhile (· ≠ '\n')).length⟩ ∨
        l.opensLineComment (c :: u) = false ∧
          (l.opensBlockComment (c :: u) = true ∧ (∃ k, (Extent.blockComment (l.blockComments = .nested) 0 1
              (u.drop 1)).settle l.strict .openComment = .ok k ∧ r = ⟨.comment, k⟩) ∨
            l.opensBlockComment (c :: u) = false ∧ readToken l lineStart c u = .ok r)) := by
  rw [read] at h
  split at h
  · next hc => exact .inl ⟨hc, (Except.ok.inj h).symm⟩
  · next hc =>
    refine .inr ⟨by simpa using hc, ?_⟩
    split at h
    · next hline => exact .inl ⟨hline, (Except.ok.inj h).symm⟩
    · next hline =>
      refine .inr ⟨by simpa using hline, ?_⟩
      split at h
      · next hblock =>
        obtain ⟨k, hk, rfl⟩ := map_eq_ok.mp h
        exact .inl ⟨hblock, k, hk, rfl⟩
      · next hblock => exact .inr ⟨by simpa using hblock, h⟩

lemma read_eq_blank (h : read l lineStart c u = .ok ⟨.blank, k⟩) : Text.isBlank c = true ∧ k = 0 := by
  rcases read_eq_ok h with ⟨hc, ⟨⟩⟩ | ⟨-, ⟨-, ⟨⟩⟩ | ⟨-, ⟨-, _, -, ⟨⟩⟩ | ⟨-, hr⟩⟩⟩
  · exact ⟨hc, rfl⟩
  · obtain ⟨_, _, _, ⟨⟩⟩ := role_of_readToken hr

lemma read_eq_comment (h : read l lineStart c u = .ok ⟨.comment, k⟩) : Text.isBlank c = false ∧
    (l.opensLineComment (c :: u) = true ∧ k = (u.takeWhile (· ≠ '\n')).length ∨
      l.opensLineComment (c :: u) = false ∧ l.opensBlockComment (c :: u) = true ∧
        (Extent.blockComment (l.blockComments = .nested) 0 1 (u.drop 1)).settle l.strict .openComment = .ok k) := by
  rcases read_eq_ok h with ⟨-, ⟨⟩⟩ | ⟨hc, ⟨hline, ⟨⟩⟩ | ⟨hline, ⟨hblock, _, hk, ⟨⟩⟩ | ⟨-, hr⟩⟩⟩
  · exact ⟨hc, .inl ⟨hline, rfl⟩⟩
  · exact ⟨hc, .inr ⟨hline, hblock, hk⟩⟩
  · obtain ⟨_, _, _, ⟨⟩⟩ := role_of_readToken hr

lemma read_eq_token {kind : Kind} {image : List Char} {reach : ℕ}
    (h : read l lineStart c u = .ok ⟨.token kind image reach, k⟩) : Text.isBlank c = false ∧
      l.opensLineComment (c :: u) = false ∧ l.opensBlockComment (c :: u) = false ∧
        readToken l lineStart c u = .ok ⟨.token kind image reach, k⟩ := by
  rcases read_eq_ok h with ⟨-, ⟨⟩⟩ | ⟨hc, ⟨-, ⟨⟩⟩ | ⟨hline, ⟨-, _, -, ⟨⟩⟩ | ⟨hblock, hr⟩⟩⟩
  exact ⟨hc, hline, hblock, hr⟩

lemma read_of_not_opens (hc : Text.isBlank c = false) (hline : l.opensLineComment (c :: u) = false)
    (hblock : l.opensBlockComment (c :: u) = false) (lineStart : Bool) :
    read l lineStart c u = readToken l lineStart c u := by
  rw [read, if_neg (by simp [hc]), if_neg (by simp [hline]), if_neg (by simp [hblock])]

lemma read_of_lineComment (hc : Text.isBlank c = false) (h : l.opensLineComment (c :: u) = true)
    (lineStart : Bool) : read l lineStart c u = .ok ⟨.comment, (u.takeWhile (· ≠ '\n')).length⟩ := by
  rw [read, if_neg (by simp [hc]), if_pos h]

lemma read_of_blockComment (h : l.opensLineComment (c :: u) = false) (hb : l.opensBlockComment (c :: u) = true)
    (lineStart : Bool) : read l lineStart c u =
      ((Extent.blockComment (l.blockComments = .nested) 0 1 (u.drop 1)).settle l.strict .openComment).map
        fun more => ⟨.comment, more⟩ := by
  have hc : Text.isBlank c = false := by
    rw [(slash_of_opensBlockComment hb).2.1]
    decide
  rw [read, if_neg (by simp [hc]), if_neg (by simp [h]), if_pos hb]

lemma breaks_of_comment (hl : l ∈ Language.builtin)
    (h : l.opensLineComment (c :: u) = true ∨ l.opensBlockComment (c :: u) = true) :
    Breaks l c ∧ c ∈ ['/', '#'] := by
  rcases h with h | h
  · rcases mark_of_opensLineComment hl h with hc | hc
    · exact ⟨.inr (.inl hc), by simp [hc.1]⟩
    · exact ⟨.inr (.inr hc), by simp [hc.1]⟩
  · obtain ⟨hpresent, rfl, -⟩ := slash_of_opensBlockComment h
    exact ⟨.inr (.inl ⟨rfl, (comments_of_builtin hl).2.2.1.resolve_left hpresent⟩), by decide⟩

end CodeClones.Source
