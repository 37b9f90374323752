import Mathlib.Data.List.Basic
import CodeClones.Language.Builtin
import CodeClones.Source.Cut

/-! Characters that end words, numbers and marks, and what the built-in languages have in common. -/

namespace CodeClones

namespace Text

def blanks : List Char :=
  blankRanges.flatMap fun range => (List.range' range.1 (range.2 + 1 - range.1)).map Char.ofNat

lemma mem_blanks {c : Char} (h : isBlank c = true) : c ∈ blanks := by
  obtain ⟨range, hr, hlow, hhigh⟩ := CharRanges.exists_of_containsCode h
  refine List.mem_flatMap.mpr ⟨range, hr, List.mem_map.mpr ⟨c.toNat, ?_, Char.ofNat_toNat c⟩⟩
  rw [List.mem_range'_1]
  omega

end Text

namespace Source

variable {l : Language} {c x : Char} {op word : String} {d : Delimiter}

def markCharacters : List Char := ['.', '(', '[', '!', '@', '$', '"', '\'', '\x60', '*', '+', '-', ';', ')', ']']

/-- A character that no word, number or mark goes on with. -/
def Breaks (l : Language) (x : Char) : Prop :=
  Text.isBlank x = true ∨ x = '/' ∧ l.lineComment = some ['/', '/'] ∨ x = '#' ∧ l.lineComment = some ['#']

lemma breaking_characters : ('/' :: '#' :: Text.blanks).all (fun x => !Text.isAlphabetic x && !Text.isNumeric x &&
    x != '_' && !continuesNumber x && !x.isDigit && !markCharacters.contains x) = true := by
  decide +kernel

lemma Breaks.kinds (h : Breaks l x) : Text.isAlphabetic x = false ∧ Text.isNumeric x = false ∧ x ≠ '_' ∧
    continuesNumber x = false ∧ x.isDigit = false ∧ x ∉ markCharacters := by
  have hx : x ∈ '/' :: '#' :: Text.blanks := by
    rcases h with h | ⟨rfl, -⟩ | ⟨rfl, -⟩
    · exact List.mem_cons_of_mem _ (List.mem_cons_of_mem _ (Text.mem_blanks h))
    · exact List.mem_cons_self
    · exact List.mem_cons_of_mem _ List.mem_cons_self
  simpa [and_assoc] using List.all_eq_true.mp breaking_characters x hx

lemma Breaks.ne (h : Breaks l x) (hc : c ∈ markCharacters) : x ≠ c := by
  rintro rfl
  exact h.kinds.2.2.2.2.2 hc

lemma Breaks.continuesWord (h : Breaks l x) : l.continuesWord x = false := by
  obtain ⟨ha, hn, hu, -⟩ := h.kinds
  simp [Language.continuesWord, ha, hn, hu, h.ne (c := '$') (by decide)]

lemma Breaks.opensWord (h : Breaks l x) : l.opensWord x = false := by
  obtain ⟨ha, -, hu, -⟩ := h.kinds
  simp [Language.opensWord, ha, hu, h.ne (c := '$') (by decide)]

lemma Breaks.continuesNumber (h : Breaks l x) : Source.continuesNumber x = false := h.kinds.2.2.2.1

lemma Breaks.isDigit (h : Breaks l x) : x.isDigit = false := h.kinds.2.2.2.2.1

lemma isBlank_ne (hb : Text.isBlank x = true) (hc : c ∈ markCharacters) : x ≠ c :=
  Breaks.ne (l := Language.text) (.inl hb) hc

/-! ### The built-in languages -/

lemma builtin_marks : Language.builtin.all (fun l => l.operators.all fun op => op.toList != [] &&
    op.toList.all isPunctuation && (l.lineComment != some ['/', '/'] || !op.toList.tail.contains '/') &&
    !op.toList.tail.contains '#') = true := by
  decide +kernel

lemma punctuation_blanks : Text.blanks.all (fun x => !isPunctuation x && x != '/') = true := by
  decide +kernel

lemma isPunctuation_of_isBlank (h : Text.isBlank x = true) : isPunctuation x = false := by
  have := List.all_eq_true.mp punctuation_blanks x (Text.mem_blanks h)
  simp only [Bool.and_eq_true, Bool.not_eq_true'] at this
  exact this.1

lemma isBlank_slash : Text.isBlank '/' = false := by decide

lemma Breaks.not_mem_operator (h : Breaks l x) (hl : l ∈ Language.builtin) (hop : op ∈ l.operators) :
    x ∉ op.toList.tail := by
  have hm := List.all_eq_true.mp (List.all_eq_true.mp builtin_marks l hl) op hop
  simp only [Bool.and_eq_true, bne_iff_ne, Bool.or_eq_true, Bool.not_eq_true', List.all_eq_true] at hm
  obtain ⟨⟨⟨-, hp⟩, hslash⟩, hsign⟩ := hm
  rcases h with h | ⟨rfl, hc⟩ | ⟨rfl, -⟩
  · intro hx
    exact absurd (hp x (List.mem_of_mem_tail hx)) (by simp [isPunctuation_of_isBlank h])
  · rcases hslash with hslash | hslash
    · exact absurd hc hslash
    · simpa using hslash
  · simpa using hsign

lemma isBlank_of_mem_operator (hl : l ∈ Language.builtin) (hop : op ∈ l.operators) (hx : x ∈ op.toList) :
    Text.isBlank x = false := by
  have hm := List.all_eq_true.mp (List.all_eq_true.mp builtin_marks l hl) op hop
  simp only [Bool.and_eq_true, List.all_eq_true] at hm
  cases hb : Text.isBlank x with
  | false => rfl
  | true => exact absurd (hm.1.1.2 x hx) (by simp [isPunctuation_of_isBlank hb])

lemma exists_operator_cons (hl : l ∈ Language.builtin) (hop : op ∈ l.operators) : ∃ x s, op.toList = x :: s := by
  have hm := List.all_eq_true.mp (List.all_eq_true.mp builtin_marks l hl) op hop
  simp only [Bool.and_eq_true, bne_iff_ne] at hm
  exact List.exists_cons_of_ne_nil hm.1.1.1

lemma builtin_delimiters : Language.builtin.all (fun l => l.quotes.all (fun c => c == '"' || c == '\'') &&
    l.otherLiterals.all fun d => (d.quote == '\'' || d.quote == '\x60') && d.kind.isLiteral) = true := by
  decide +kernel

lemma builtin_comments : Language.builtin.all (fun l => (l.lineComment == none ||
    l.lineComment == some ['/', '/'] || l.lineComment == some ['#']) &&
    (!l.preprocessor || l.lineComment == some ['/', '/']) &&
    (l.blockComments == .absent || l.lineComment == some ['/', '/']) &&
    (l.lineComment != some ['#'] || l.rawStringMarks == [])) = true := by
  decide +kernel

lemma quotes_of_builtin (hl : l ∈ Language.builtin) (hc : c ∈ l.quotes) : c = '"' ∨ c = '\'' := by
  have := List.all_eq_true.mp builtin_delimiters l hl
  simp only [Bool.and_eq_true, List.all_eq_true, Bool.or_eq_true, beq_iff_eq] at this
  exact this.1 c hc

lemma otherLiterals_of_builtin (hl : l ∈ Language.builtin) (hd : d ∈ l.otherLiterals) :
    (d.quote = '\'' ∨ d.quote = '\x60') ∧ d.kind.isLiteral = true := by
  have := List.all_eq_true.mp builtin_delimiters l hl
  simp only [Bool.and_eq_true, List.all_eq_true, Bool.or_eq_true, beq_iff_eq] at this
  exact this.2 d hd

lemma comments_of_builtin (hl : l ∈ Language.builtin) :
    (l.lineComment = none ∨ l.lineComment = some ['/', '/'] ∨ l.lineComment = some ['#']) ∧
    (l.preprocessor = false ∨ l.lineComment = some ['/', '/']) ∧
    (l.blockComments = .absent ∨ l.lineComment = some ['/', '/']) ∧
    (l.lineComment ≠ some ['#'] ∨ l.rawStringMarks = []) := by
  have := List.all_eq_true.mp builtin_comments l hl
  simpa only [Bool.and_eq_true, Bool.or_eq_true, beq_iff_eq, bne_iff_ne, Bool.not_eq_true', and_assoc, or_assoc]
    using this

lemma lineComment_of_preprocessor (hl : l ∈ Language.builtin) (hp : l.preprocessor = true) :
    l.lineComment = some ['/', '/'] :=
  (comments_of_builtin hl).2.1.resolve_left (by simp [hp])

lemma isBlank_of_quote (hl : l ∈ Language.builtin) (hc : l.quotes.contains c = true) : Text.isBlank c = false := by
  rcases quotes_of_builtin hl (List.contains_iff_mem.mp hc) with rfl | rfl <;> decide

end Source

end CodeClones
