import CodeClones.Proofs.LineEnds.Scans
import CodeClones.Proofs.Locality.Readings
import CodeClones.Proofs.Source.Trivia

/-! A text without quotes is read in the same way with a carriage return in front of each line feed. -/

namespace CodeClones.Source

open Success

variable {l : Language} {lineStart : Bool} {c : Char} {u z text rest : List Char} {n : ℕ} {r : Reading}

/-! ### Readers of quotes -/

namespace IsUnquoted

lemma not_mem (h : IsUnquoted text) : '"' ∉ text := fun hm => h _ hm (by decide)

variable (h : IsUnquoted (c :: rest))

include h

lemma readVerbatimString?_eq : readVerbatimString? l c rest = none := by
  have hnone : ∀ mark : List Char, '"' ∈ mark → mark.isPrefixOf rest = false := fun mark hm =>
    Bool.eq_false_iff.mpr fun hp =>
      h.not_mem (List.mem_cons_of_mem c ((List.isPrefixOf_iff_prefix.mp hp).subset hm))
  have hmark : verbatimMark? c rest = none := by
    simp [verbatimMark?, hnone]
  rw [readVerbatimString?, hmark]
  simp

variable (hl : l ∈ Language.builtin)

include hl

lemma readString?_eq : readString? l c rest = none := by
  rw [readString?, if_neg (Bool.eq_false_iff.mp (h.not_quote hl))]

lemma readOtherLiteral?_eq : readOtherLiteral? l c rest = none := by
  rw [readOtherLiteral?, Option.map_eq_none_iff, List.find?_eq_none]
  intro d hd hq
  refine h c List.mem_cons_self ?_
  rw [← of_decide_eq_true hq]
  rcases (otherLiterals_of_builtin hl hd).1 with hd | hd <;> rw [hd] <;> decide

lemma markedLiteral?_eq (word : String) (n : ℕ) : markedLiteral? l word n (c :: rest) = none := by
  have hraw : rawStringExtent? (c :: rest) = none := by
    rw [rawStringExtent?]
    split
    · next hq =>
      exact absurd (List.mem_of_mem_drop (List.mem_of_mem_head? hq)) h.not_mem
    · rfl
  have hc : c ≠ '\'' := by
    rintro rfl
    exact h _ List.mem_cons_self (by decide)
  simp only [markedLiteral?, hraw, ite_self, h.not_quote hl, hc, Bool.and_false, decide_false, Bool.false_eq_true,
    if_false]

end IsUnquoted

lemma markedLiteral?_of_unquoted (hl : l ∈ Language.builtin) (h : IsUnquoted text) (word : String) (n : ℕ) :
    markedLiteral? l word n text = none := by
  cases text with
  | nil => rfl
  | cons c text => exact h.markedLiteral?_eq hl word n

/-! ### Readings -/

inductive Role.Matches : Role → Role → Prop
  | blank : Matches .blank .blank
  | comment : Matches .comment .comment
  | token (kind : Kind) (image : List Char) (reach reach' : ℕ) :
      Matches (.token kind image reach) (.token kind image reach')

lemma Role.Matches.refl (role : Role) : role.Matches role := by
  cases role with
  | blank => exact .blank
  | comment => exact .comment
  | token kind image reach => exact .token kind image reach reach

/-- Both readings tell the same of the same part, or both fail where they begin. -/
def ReadingsMeet (rest : List Char) : Except Failure Reading → Except Failure Reading → Prop
  | .ok r, .ok r' => r.role.Matches r'.role ∧ Reaches rest 0 r.more 0 r'.more
  | .error f, .error f' => f' = f ∧ f.offset = 0
  | _, _ => False

lemma meets_of_le (hu : '\n' ∉ u) (hn : n ≤ u.length) (z : List Char) : Meets (u ++ z) 0 n 0 n := by
  have hbody : '\n' ∉ u.take n := fun h => hu (List.mem_of_mem_take h)
  refine ⟨u.take n, u.drop n ++ z, ?_, ?_, ?_⟩
  · rw [← List.append_assoc, List.take_append_drop]
  · rw [List.length_take, Nat.min_eq_left hn, Nat.zero_add]
  · rw [withReturns_eq_self hbody, List.length_take, Nat.min_eq_left hn, Nat.zero_add]

namespace ReadingsMeet

lemma line (hu : '\n' ∉ u) (hr : r.more ≤ u.length) (z : List Char) : ReadingsMeet (u ++ z) (.ok r) (.ok r) :=
  ⟨.refl r.role, .inl (meets_of_le hu hr z)⟩

lemma draft {d d' e e' : Draft} (h : Draft.Reaches text d d' e e') (hd : d.more = u.length)
    (hd' : d'.more = (withReturns u).length) : ReadingsMeet (u ++ text) (.ok e.reading) (.ok e'.reading) := by
  refine ⟨?_, .of_append ?_⟩
  · rw [Draft.reading, Draft.reading, h.reversed]
    exact .token _ _ _ _
  · rw [Nat.zero_add, Nat.zero_add, ← hd, ← hd']
    exact h.reaches

lemma of_lengths {x y : Except Failure ℕ} {reading reading' : ℕ → Reading} (h : LengthsMeet rest 0 0 x y)
    (hmore : ∀ k, (reading k).more = k) (hmore' : ∀ k, (reading' k).more = k)
    (hrole : ∀ k k', Meets rest 0 k 0 k' → (reading k).role.Matches (reading' k').role) :
    ReadingsMeet rest (x.map reading) (y.map reading') := by
  cases x with
  | ok k =>
    cases y with
    | ok k' =>
      refine ⟨hrole k k' h, .inl ?_⟩
      rw [hmore, hmore']
      exact h
    | error f' => exact h
  | error f =>
    cases y with
    | ok k' => exact h
    | error f' => exact h

end ReadingsMeet

/-! ### Readers -/

lemma exists_line (l : Language) (rest : List Char) :
    ∃ u z, rest = u ++ z ∧ '\n' ∉ u ∧ Breaking l z ∧ Breaking l (withReturns z) := by
  refine ⟨rest.takeWhile (· ≠ '\n'), rest.dropWhile (· ≠ '\n'), List.takeWhile_append_dropWhile.symm, ?_, ?_⟩
  · exact fun h => absurd (List.mem_takeWhile_imp h) (by decide)
  · cases hd : rest.dropWhile (· ≠ '\n') with
    | nil => exact ⟨by simp [Breaking], by simp [Breaking]⟩
    | cons x z =>
      have hx := List.head?_dropWhile_not (· ≠ '\n') rest
      rw [hd] at hx
      obtain rfl : x = '\n' := by simpa using hx
      refine ⟨fun y hy => .inl ?_, fun y hy => .inl ?_⟩
      · rw [← Option.some.inj hy]
        decide
      · rw [← Option.some.inj hy]
        decide

lemma filter_withReturns (text : List Char) :
    (withReturns text).filter (fun c => !Text.isBlank c) = text.filter fun c => !Text.isBlank c := by
  induction text with
  | nil => rfl
  | cons c text ih =>
    by_cases hc : c = '\n'
    · have hn : Text.isBlank '\n' = true := by decide
      have hr : Text.isBlank '\r' = true := by decide
      subst hc
      simp [hn, hr, ih]
    · rw [withReturns_cons hc, List.filter_cons, List.filter_cons, ih]

lemma dropWhile_withReturns (text : List Char) :
    (withReturns text).dropWhile isSpace = withReturns (text.dropWhile isSpace) := by
  induction text with
  | nil => rfl
  | cons c text ih =>
    by_cases hc : c = '\n'
    · subst hc
      rfl
    · rw [withReturns_cons hc, List.dropWhile_cons, List.dropWhile_cons, ih]
      split
      · rfl
      · rw [withReturns_cons hc]

lemma opensDirective_withReturns (l : Language) (text : List Char) :
    opensDirective l (withReturns text) = opensDirective l text := by
  rw [opensDirective_eq, opensDirective_eq, dropWhile_withReturns]
  cases text.dropWhile isSpace with
  | nil => rfl
  | cons c rest =>
    by_cases hc : c = '\n'
    · subst hc
      rfl
    · rw [withReturns_cons hc]
      rfl

lemma reaches_lineEnd (n n' : ℕ) (text : List Char) :
    Reaches text n (n + (text.takeWhile (· ≠ '\n')).length) n'
      (n' + ((withReturns text).takeWhile (· ≠ '\n')).length) := by
  induction text generalizing n n' with
  | nil => exact .inl (.refl [] n n')
  | cons c text ih =>
    by_cases hc : c = '\n'
    · subst hc
      exact .lineEnd text n n'
    · have hkeep : decide (c ≠ '\n') = true := decide_eq_true hc
      rw [withReturns_cons hc, List.takeWhile_cons_of_pos (p := (· ≠ '\n')) hkeep,
        List.takeWhile_cons_of_pos (p := (· ≠ '\n')) hkeep, List.length_cons, List.length_cons, ← Nat.add_assoc,
        ← Nat.add_assoc, Nat.add_right_comm, Nat.add_right_comm n']
      exact .cons hc (ih (n + 1) (n' + 1))

lemma rel_preprocessorLine_withReturns (hs : IsBare rest) : Option.Rel (ReadingsMeet rest)
    ((readPreprocessorLine? l lineStart c rest).map .ok)
    ((readPreprocessorLine? l lineStart c (withReturns rest)).map .ok) := by
  rw [readPreprocessorLine?, readPreprocessorLine?]
  split
  · exact .some (.draft (u := []) (reaches_preprocessorLine hs rfl) rfl rfl)
  · exact .none

lemma rel_number_withReturns (hc : Text.isBlank c = false) : Option.Rel (ReadingsMeet rest)
    ((readNumber? c rest).map .ok) ((readNumber? c (withReturns rest)).map .ok) := by
  obtain ⟨u, z, rfl, hu, hz, hz'⟩ := exists_line .text rest
  rw [withReturns_append, withReturns_eq_self hu, readNumber?_append hz, readNumber?_append hz']
  cases hr : readNumber? c u with
  | none => exact .none
  | some r => exact .some (.line hu (describes_number (l := .text) hc hr).more_le z)

def Segment.IsContinued (s : Segment) : Prop :=
  (∃ image reach, s.role = .token .directive image reach) ∧ s.text.head? ≠ some '#' ∧ ['\\', '\n'] <:+: s.text

lemma opensWord_ne (h : l.opensWord c = true) : c ≠ '#' ∧ c ≠ '@' := by
  refine ⟨?_, ?_⟩ <;> rintro rfl <;> simp [Language.opensWord] at h <;> exact absurd h (by decide)

lemma readToken_of_word {x : Except Failure Reading} (hs : IsUnquoted (c :: rest))
    (h : readWord? l lineStart c rest = some x) : readToken l lineStart c rest = x := by
  rw [readWord?, Option.ite_none_right_eq_some] at h
  obtain ⟨hsign, hat⟩ := opensWord_ne h.1
  have hpreprocessor : readPreprocessorLine? l lineStart c rest = none := by
    simp [readPreprocessorLine?, hsign]
  have hmetadata : readMetadata? l lineStart c rest = none := by
    rw [readMetadata?, Option.map_eq_none_iff, metadataLength?]
    split <;> simp [hsign, hat]
  rw [readToken, hpreprocessor, hmetadata, hs.readVerbatimString?_eq, readWord?, if_pos h.1, h.2]
  rfl

section Readers

variable (hl : l ∈ Language.builtin) (hs : IsBare rest)

include hl hs

lemma rel_namedLength_withReturns :
    Option.Rel (LengthsMeet rest 0 0) (namedLength? l rest) (namedLength? l (withReturns rest)) := by
  obtain ⟨u, z, rfl, hu, hz, hz'⟩ := exists_line l rest
  rw [withReturns_append, withReturns_eq_self hu, namedLength?, namedLength?, hz.metadataName?_append,
    hz'.metadataName?_append]
  cases hname : metadataName? l u with
  | none => exact .none
  | some name =>
    obtain ⟨v, rfl⟩ : name <+: u := (metadataName?_eq_some hname).1 ▸ List.takeWhile_prefix _
    have hself : withReturns name = name := withReturns_eq_self fun h => hu (List.mem_append_left v h)
    have hv : v ++ withReturns z = withReturns (v ++ z) := by
      rw [withReturns_append, withReturns_eq_self fun h => hu (List.mem_append_right name h)]
    rw [List.append_assoc] at hs
    refine .some ?_
    dsimp only
    rw [List.append_assoc, List.append_assoc, List.drop_left, List.drop_left, hv]
    simp only [head?_withReturns (show '(' ≠ '\r' by decide) (show '(' ≠ '\n' by decide)]
    refine .of_append ?_
    rw [hself, Nat.zero_add]
    split
    · exact meet_balancedLength hl (by decide) (by decide) (IsBare.append_iff.mp hs).2 0 _ _
    · exact Meets.refl _ _ _

lemma rel_bracketedLength_withReturns :
    Option.Rel (LengthsMeet rest 0 0) (bracketedLength? l rest) (bracketedLength? l (withReturns rest)) := by
  rw [bracketedLength?, bracketedLength?, isPrefixOf_withReturns (by decide), isPrefixOf_withReturns (by decide)]
  split
  · exact .some (meet_balancedLength hl (by decide) (by decide) hs 0 0 0)
  · split
    · next hp =>
      obtain ⟨v, rfl⟩ := List.isPrefixOf_iff_prefix.mp hp
      rw [List.cons_append] at hs ⊢
      rw [withReturns_cons (by decide)]
      exact .some (.cons (by decide) (meet_balancedLength hl (by decide) (by decide) hs.tail 0 1 1))
    · exact .none

lemma rel_metadata_withReturns : Option.Rel (ReadingsMeet rest) (readMetadata? l lineStart c rest)
    (readMetadata? l lineStart c (withReturns rest)) := by
  have hlength : Option.Rel (LengthsMeet rest 0 0) (metadataLength? l lineStart c rest)
      (metadataLength? l lineStart c (withReturns rest)) := by
    rw [metadataLength?, metadataLength?]
    split
    · exact .none
    · split
      · exact rel_namedLength_withReturns hl hs
      · exact .none
    · split
      · exact rel_namedLength_withReturns hl hs
      · exact .none
    · split
      · exact rel_bracketedLength_withReturns hl hs
      · exact .none
  rw [readMetadata?, readMetadata?]
  generalize metadataLength? l lineStart c rest = x, metadataLength? l lineStart c (withReturns rest) = y at hlength
  cases hlength with
  | none => exact .none
  | some hlength =>
    refine .some (.of_lengths hlength (fun _ => rfl) (fun _ => rfl) ?_)
    rintro _ _ ⟨body, behind, rfl, rfl, rfl⟩
    dsimp only
    rw [Nat.zero_add, Nat.zero_add, withReturns_append, List.take_left, List.take_left, List.filter_cons,
      List.filter_cons, filter_withReturns]
    exact .token _ _ _ _

lemma rel_word_withReturns
    (h : ∀ r, readWord? l lineStart c rest = some (.ok r) →
      ¬ (⟨r.role, c :: rest.take r.more⟩ : Segment).IsContinued) :
    Option.Rel (ReadingsMeet rest) (readWord? l lineStart c rest) (readWord? l lineStart c (withReturns rest)) := by
  obtain ⟨u, z, rfl, hu, hz, hz'⟩ := exists_line l rest
  rw [withReturns_append, withReturns_eq_self hu]
  simp only [readWord?, hz.takeWhile_append fun x hx => hx.continuesWord,
    hz'.takeWhile_append fun x hx => hx.continuesWord] at h ⊢
  obtain ⟨v, hv⟩ := List.takeWhile_prefix l.continuesWord (l := u)
  generalize u.takeWhile l.continuesWord = tail at *
  subst hv
  have htail : '\n' ∉ tail := fun h => hu (List.mem_append_left v h)
  have hbehind : v ++ withReturns z = withReturns (v ++ z) := by
    rw [withReturns_append, withReturns_eq_self fun h => hu (List.mem_append_right tail h)]
  rw [List.append_assoc] at hs
  have hbare := (IsBare.append_iff.mp hs).2
  simp only [List.append_assoc, List.drop_left, hbehind, markedLiteral?_of_unquoted hl hbare.isUnquoted,
    markedLiteral?_of_unquoted hl hbare.isUnquoted_withReturns, opensDirective_withReturns] at h ⊢
  generalize v ++ z = behind at *
  split
  · next hc =>
    rw [if_pos hc] at h
    refine .some ?_
    split
    · next hd =>
      rw [if_pos hd] at h
      refine .draft (reaches_statement hl hbare rfl fun hi => h _ rfl ⟨⟨_, _, rfl⟩, ?_, ?_⟩) rfl
        (by rw [withReturns_eq_self htail]; rfl)
      · exact fun he => (opensWord_ne hc).1 (Option.some.inj he)
      · refine List.infix_cons (hi.trans ?_)
        rw [List.take_append]
        exact (List.suffix_append _ _).isInfix
    · rw [plain_append _ c _ (Nat.le_refl _), plain_append _ c _ (Nat.le_refl _)]
      exact .line htail (Nat.le_refl _) _
  · exact .none

lemma meet_operator (hc : Text.isBlank c = false) :
    ReadingsMeet rest (readOperator l c rest) (readOperator l c (withReturns rest)) := by
  obtain ⟨u, z, rfl, hu, hz, hz'⟩ := exists_line l rest
  rw [withReturns_append, withReturns_eq_self hu, readOperator_append hz hl, readOperator_append hz' hl]
  have haccounts := accounts_operator hl hc u
  cases hx : readOperator l c u with
  | ok r =>
    rw [hx] at haccounts
    exact .line hu (Reading.Describes.more_le haccounts) z
  | error f =>
    rw [readOperator] at hx
    split at hx
    · split at hx
      · exact ⟨rfl, by rw [← Except.error.inj hx]⟩
      · simp at hx
    · simp at hx

end Readers

lemma meet_readToken (hl : l ∈ Language.builtin) (hs : IsBare (c :: rest)) (hc : Text.isBlank c = false)
    (h : ∀ r, readToken l lineStart c rest = .ok r →
      ¬ (⟨r.role, c :: rest.take r.more⟩ : Segment).IsContinued) :
    ReadingsMeet rest (readToken l lineStart c rest) (readToken l lineStart c (withReturns rest)) := by
  have hquotes := hs.isUnquoted
  have hquotes' := hs.isUnquoted_withReturns
  rw [withReturns_cons (by rintro rfl; exact absurd hc (by decide))] at hquotes'
  rw [readToken, readToken, hquotes.readVerbatimString?_eq, hquotes.readString?_eq hl, hquotes.readOtherLiteral?_eq hl,
    hquotes'.readVerbatimString?_eq, hquotes'.readString?_eq hl, hquotes'.readOtherLiteral?_eq hl]
  refine rel_getD (rel_orElse (rel_preprocessorLine_withReturns hs.tail) ?_) (meet_operator hl hs.tail hc)
  refine rel_orElse (rel_metadata_withReturns hl hs.tail) (rel_orElse .none (rel_orElse ?_ ?_))
  · exact rel_word_withReturns hl hs.tail fun r hr => h r (readToken_of_word hquotes hr)
  · exact rel_orElse (rel_number_withReturns hc) (rel_orElse .none .none)

lemma meet_read (hl : l ∈ Language.builtin) (hs : IsBare (c :: rest)) (hc : c ≠ '\n')
    (h : ∀ r, read l lineStart c rest = .ok r → ¬ (⟨r.role, c :: rest.take r.more⟩ : Segment).IsContinued) :
    ReadingsMeet rest (read l lineStart c rest) (read l lineStart c (withReturns rest)) := by
  have hline := opensLineComment_withReturns hl (c :: rest)
  have hblock : l.opensBlockComment (c :: withReturns rest) = l.opensBlockComment (c :: rest) := by
    rw [Language.opensBlockComment, Language.opensBlockComment, isPrefixOf_cons_withReturns (by decide) hc]
  rw [withReturns_cons hc] at hline
  by_cases hb : Text.isBlank c = true
  · rw [read_blank l lineStart hb, read_blank l lineStart hb]
    exact ⟨.blank, .inl (.refl rest 0 0)⟩
  rw [Bool.not_eq_true] at hb
  by_cases hlc : l.opensLineComment (c :: rest) = true
  · rw [read_of_lineComment hb hlc, read_of_lineComment hb (hline.trans hlc)]
    have := reaches_lineEnd 0 0 rest
    rw [Nat.zero_add, Nat.zero_add] at this
    exact ⟨.comment, this⟩
  rw [Bool.not_eq_true] at hlc
  by_cases hbc : l.opensBlockComment (c :: rest) = true
  · rw [read_of_blockComment hlc hbc, read_of_blockComment (hline.trans hlc) (hblock.trans hbc)]
    obtain ⟨-, rfl, v, rfl⟩ := slash_of_opensBlockComment hbc
    rw [withReturns_cons (by decide)]
    exact .of_lengths (.cons (by decide) (meet_blockComment _ 0 1 1 _ _ v)) (fun _ => rfl) (fun _ => rfl)
      fun _ _ _ => .comment
  rw [Bool.not_eq_true] at hbc
  rw [read_of_not_opens hb hlc hbc] at h ⊢
  rw [read_of_not_opens hb (hline.trans hlc) (hblock.trans hbc)]
  exact meet_readToken hl hs hb h

end CodeClones.Source
