import Mathlib.Algebra.Ring.Parity
import CodeClones.Proofs.Source.Extents

/-! Backslashes in literals take in the character behind them. -/

namespace CodeClones.Source

variable {c : Char} {n : ℕ} {s w : List Char} {d : Delimiter}

/-- A backslash at the end takes in the character behind the text: an odd number of them stands there. -/
def EndsEscaping (s : List Char) : Prop := Odd (s.reverse.takeWhile (· = '\\')).length

instance (s : List Char) : Decidable (EndsEscaping s) := inferInstanceAs (Decidable (Odd _))

@[simp] lemma not_endsEscaping_nil : ¬ EndsEscaping [] := by decide

lemma endsEscaping_cons (hc : c ≠ '\\') (s : List Char) : EndsEscaping (c :: s) ↔ EndsEscaping s := by
  rw [EndsEscaping, EndsEscaping, List.reverse_cons, List.takeWhile_append]
  split
  · next h => simp [hc, ← h]
  · exact Iff.rfl

lemma endsEscaping_escape (c : Char) (s : List Char) : EndsEscaping ('\\' :: c :: s) ↔ EndsEscaping s := by
  rw [EndsEscaping, EndsEscaping, List.reverse_cons, List.reverse_cons, List.append_assoc, List.takeWhile_append]
  split
  · next h =>
    -- The text consists of backslashes, and what stands in front adds two of them or none.
    rw [List.length_append, ← h, Nat.odd_add]
    by_cases hc : c = '\\'
    · simp [hc]
    · simp [hc]
  · exact Iff.rfl

lemma Extent.literal_lineFeed (hm : d.multiline = false) (hd : d.escapes = true)
    (hw : ∀ x ∈ w, x ≠ d.quote ∧ x ≠ '\n') (he : ¬ EndsEscaping w) (n : ℕ) (s : List Char) :
    literal d n (w ++ '\n' :: s) = .unclosed (n + w.length) := by
  fun_induction literal d n w with
  | case1 n => simp [literal_cons, hm]
  | case2 n c w hc => exact absurd hc.1 (hw c List.mem_cons_self).2
  | case3 n c hc hc' =>
    refine absurd ?_ he
    rw [hc'.1]
    decide
  | case4 n c hc hc' e w ih =>
    obtain ⟨-, -, hw⟩ := List.forall_mem_cons.mp hw |>.imp_right List.forall_mem_cons.mp
    rw [hc'.1, endsEscaping_escape] at he
    rw [List.cons_append, List.cons_append, literal_cons, if_neg hc, if_pos hc', if_neg (List.cons_ne_nil _ _),
      List.tail_cons, ih hw he]
    simp [Nat.add_assoc, Nat.add_comm 2]
  | case5 n w hc hc' => exact absurd rfl (hw d.quote List.mem_cons_self).1
  | case6 n c w hc hc' hc'' ih =>
    rw [endsEscaping_cons fun hb => hc' ⟨hb, hd⟩] at he
    rw [List.cons_append, literal_cons, if_neg hc, if_neg hc', if_neg hc'',
      ih (List.forall_mem_cons.mp hw).2 he, List.length_cons, Nat.add_assoc, Nat.add_comm 1]

end CodeClones.Source
