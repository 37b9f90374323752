import CodeClones.Proofs.Access
import CodeClones.Proofs.Source.Places
import CodeClones.Text.Lines

/-! The lines of a text, and the lines on which its characters stand. -/

namespace CodeClones

variable {text : List Char} {first last i : ℕ} {c : Char}

namespace Text

/-- The pieces between the line feeds, each without the carriage return in front of its line feed. -/
def physicalLines (text : List Char) : List (List Char) :=
  (text.splitOn '\n').dropLast.map dropReturn ++ (text.splitOn '\n').getLast?.toList

lemma linesOf_isInitial (pieces : List (List Char)) :
    linesOf pieces <+: pieces.dropLast.map dropReturn ++ pieces.getLast?.toList := by
  induction pieces with
  | nil => exact List.prefix_rfl
  | cons line following ih =>
    cases following with
    | nil =>
      rw [linesOf]
      split
      · exact List.nil_prefix
      · exact List.prefix_rfl
    | cons next following =>
      rw [linesOf, List.dropLast_cons_cons, List.map_cons, List.getLast?_cons_cons, List.cons_append]
      · exact List.cons_prefix_cons.mpr ⟨rfl, ih⟩
      · exact List.cons_ne_nil _ _

lemma lines_isInitial (text : List Char) : lines text <+: physicalLines text := linesOf_isInitial _

lemma not_mem_of_mem_splitOn {piece : List Char} (h : piece ∈ text.splitOn '\n') : '\n' ∉ piece := by
  induction text generalizing piece with
  | nil =>
    obtain rfl := List.mem_singleton.mp h
    exact List.not_mem_nil
  | cons c text ih =>
    rw [List.splitOn_cons_eq_if_modifyHead] at h
    split at h
    · rcases List.mem_cons.mp h with rfl | h
      · exact List.not_mem_nil
      · exact ih h
    · next hc =>
      obtain ⟨first, others, hs⟩ := List.exists_cons_of_ne_nil (List.splitOn_ne_nil '\n' text)
      rw [hs, List.modifyHead_cons] at h
      rcases List.mem_cons.mp h with rfl | h
      · intro hm
        rcases List.mem_cons.mp hm with rfl | hm
        · exact hc (by decide)
        · exact ih (hs ▸ List.mem_cons_self) hm
      · exact ih (hs ▸ List.mem_cons_of_mem first h)

lemma dropReturn_subset (line : List Char) : dropReturn line ⊆ line := by
  rw [dropReturn]
  split
  · exact List.dropLast_subset line
  · exact List.Subset.refl line

lemma exists_piece_of_mem_physicalLines {line : List Char} (h : line ∈ physicalLines text) :
    ∃ piece ∈ text.splitOn '\n', line ⊆ piece := by
  rcases List.mem_append.mp h with h | h
  · obtain ⟨piece, hp, rfl⟩ := List.mem_map.mp h
    exact ⟨piece, List.dropLast_subset _ hp, dropReturn_subset piece⟩
  · exact ⟨line, List.mem_of_getLast? (Option.mem_toList.mp h), List.Subset.refl line⟩

lemma not_mem_of_mem_physicalLines {line : List Char} (h : line ∈ physicalLines text) : '\n' ∉ line := by
  obtain ⟨piece, hp, hline⟩ := exists_piece_of_mem_physicalLines h
  exact fun hm => not_mem_of_mem_splitOn hp (hline hm)

lemma intercalate_subset {pieces : List (List Char)} (h : ∀ piece ∈ pieces, piece ⊆ c :: text) :
    [c].intercalate pieces ⊆ c :: text := by
  induction pieces with
  | nil => exact List.nil_subset _
  | cons piece pieces ih =>
    obtain ⟨hfirst, hothers⟩ := List.forall_mem_cons.mp h
    cases pieces with
    | nil => rwa [List.intercalate_singleton]
    | cons next pieces =>
      rw [List.intercalate_cons_cons, List.append_subset, List.append_subset]
      refine ⟨⟨hfirst, ?_⟩, ih hothers⟩
      exact List.cons_subset_cons c (List.nil_subset text)

lemma subset_of_mem_splitOn {piece : List Char} (h : piece ∈ text.splitOn '\n') : piece ⊆ text := by
  intro c hc
  obtain ⟨i, hi⟩ := List.mem_iff_getElem?.mp h
  have hpiece : piece ∈ (text.splitOn '\n').intersperse ['\n'] :=
    List.mem_of_getElem? (List.getElem?_intersperse_two_mul.trans hi)
  have hwhole : c ∈ ['\n'].intercalate (text.splitOn '\n') := List.mem_flatten.mpr ⟨piece, hpiece, hc⟩
  rwa [List.intercalate_splitOn] at hwhole

lemma lineRange_def (text : List Char) (first last : ℕ) : lineRange text first last =
    if first = 0 ∨ last < first then []
    else ['\n'].intercalate (((lines text).drop (first - 1)).take (last - first + 1)) :=
  rfl

lemma lineRangeM_eq {m : Type → Type} [Monad m] [LawfulMonad m] [Access m] (text : List Char) (first last : ℕ) :
    (lineRangeM text first last : m _) = pure (lineRange text first last) := by
  rw [lineRangeM, lineRange_def]
  split
  · rfl
  · next h =>
    rw [not_or, Nat.not_lt] at h
    rw [minus_eq (Nat.pos_of_ne_zero h.1), minus_eq h.2, pure_bind, pure_bind]

lemma lineRange_subset (text : List Char) (first last : ℕ) : lineRange text first last ⊆ '\n' :: text := by
  rw [lineRange_def]
  split
  · exact List.nil_subset _
  · apply intercalate_subset
    intro line hline
    have hline := (lines_isInitial text).subset (List.mem_of_mem_drop (List.mem_of_mem_take hline))
    obtain ⟨piece, hp, hsub⟩ := exists_piece_of_mem_physicalLines hline
    apply List.subset_cons_of_subset
    exact List.Subset.trans hsub (subset_of_mem_splitOn hp)

lemma length_lines_cons (c : Char) (text : List Char) : (lines (c :: text)).length =
    if c = '\n' then (lines text).length + 1 else max 1 (lines text).length := by
  obtain ⟨piece, pieces, hs⟩ := List.exists_cons_of_ne_nil (List.splitOn_ne_nil '\n' text)
  rw [lines, lines, List.splitOn_cons_eq_if_modifyHead, hs]
  by_cases hc : c = '\n'
  · simp [hc, linesOf]
  · cases pieces with
    | nil => by_cases hp : piece = [] <;> simp [hc, linesOf, hp]
    | cons next pieces => simp [hc, linesOf]

lemma count_lt_length_lines (h : i < text.length) : (text.take i).count '\n' < (lines text).length := by
  induction text generalizing i with
  | nil => exact absurd h (Nat.not_lt_zero i)
  | cons c text ih =>
    rw [length_lines_cons]
    cases i with
    | zero =>
      rw [List.take_zero, List.count_nil]
      split <;> omega
    | succ i =>
      have := ih (Nat.lt_of_succ_lt_succ h)
      rw [List.take_succ_cons, List.count_cons]
      by_cases hc : c = '\n'
      · simp only [hc, beq_self_eq_true, if_true]
        omega
      · simp only [beq_iff_eq, hc, if_false]
        omega

lemma lineRange_eq (hfirst : 0 < first) (hle : first ≤ last) (hlast : last ≤ (lines text).length) :
    lineRange text first last =
      ['\n'].intercalate (((physicalLines text).drop (first - 1)).take (last - first + 1)) := by
  obtain ⟨rest, hrest⟩ := lines_isInitial text
  rw [lineRange_def, if_neg (by omega), ← hrest, List.drop_append_of_le_length (by omega),
    List.take_append_of_le_length (by rw [List.length_drop]; omega)]

lemma splitOn_lineRange (hfirst : 0 < first) (hle : first ≤ last) (hlast : last ≤ (lines text).length) :
    (lineRange text first last).splitOn '\n' =
      ((physicalLines text).drop (first - 1)).take (last - first + 1) := by
  have hlength := (lines_isInitial text).length_le
  rw [lineRange_eq hfirst hle hlast]
  apply List.splitOn_intercalate
  · intro line hline
    exact not_mem_of_mem_physicalLines (List.mem_of_mem_drop (List.mem_of_mem_take hline))
  · apply List.ne_nil_of_length_pos
    rw [List.length_take, List.length_drop]
    omega

end Text

/-! ### The lines of places -/

namespace Position

open Source Text

lemma line_ofIndex (text : List Char) (i : ℕ) : (ofIndex text i).line = (text.take i).count '\n' + 1 := rfl

lemma line_mono {j : ℕ} (h : i ≤ j) : (ofIndex text i).line ≤ (ofIndex text j).line := by
  have hprefix : text.take i <+: text.take j := List.take_prefix_take_left h
  have := hprefix.sublist.count_le '\n'
  rw [line_ofIndex, line_ofIndex]
  omega

lemma line_ofIndex_le (source : List Char) (h : i < (dropByteOrderMark source).length) :
    (ofIndex (dropByteOrderMark source) i).line ≤ (lines source).length := by
  rw [line_ofIndex]
  rw [dropByteOrderMark.eq_def] at h ⊢
  split at h
  -- The mark for the order of bytes counts as a character of the first line.
  · next text =>
    have hmark : (('\uFEFF' :: text).take (i + 1)).count '\n' < (lines ('\uFEFF' :: text)).length :=
      count_lt_length_lines (Nat.succ_lt_succ h)
    rwa [List.take_succ_cons, List.count_cons_of_ne (by decide)] at hmark
  · exact count_lt_length_lines h

end Position

end CodeClones
