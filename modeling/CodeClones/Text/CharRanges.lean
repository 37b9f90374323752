/-! Sets of characters, given by the code points of their members. -/

namespace CodeClones.Text

/-- Ranges of code points, both ends included, in ascending order and apart from each other. -/
abbrev CharRanges := List (Nat × Nat)

namespace CharRanges

def containsCode : CharRanges → Nat → Bool
  | [], _ => false
  | (low, high) :: above, n => low ≤ n && (n ≤ high || containsCode above n)

def contains (ranges : CharRanges) (c : Char) : Bool := ranges.containsCode c.toNat

theorem exists_of_containsCode {ranges : CharRanges} {n : Nat} (h : ranges.containsCode n = true) :
    ∃ range ∈ ranges, range.1 ≤ n ∧ n ≤ range.2 := by
  induction ranges with
  | nil => simp [containsCode] at h
  | cons range above ih =>
      obtain ⟨low, high⟩ := range
      simp only [containsCode, Bool.and_eq_true, Bool.or_eq_true, decide_eq_true_eq] at h
      rcases h.2 with hn | hn
      · exact ⟨(low, high), by simp, h.1, hn⟩
      · obtain ⟨range, hr, hn⟩ := ih hn
        exact ⟨range, by simp [hr], hn⟩

end CharRanges

end CodeClones.Text
