/-! Bisection: the first number of a range at which a property fails that only ever changes once. -/

namespace CodeClones

/-- The first number from `low` on, or else `high`, at which `p` is false, if no number behind it makes
`p` true again. -/
def partitionPoint (p : Nat → Bool) (low high : Nat) : Nat :=
  if low < high then
    let middle := (low + high) / 2
    if p middle then partitionPoint p (middle + 1) high else partitionPoint p low middle
  else low
termination_by high - low
decreasing_by all_goals omega

theorem partitionPoint_eq {p : Nat → Bool} {low high n : Nat} (hl : low ≤ n) (hh : n ≤ high)
    (before : ∀ i, low ≤ i → i < n → p i = true) (behind : ∀ i, n ≤ i → i < high → p i = false) :
    partitionPoint p low high = n := by
  fun_induction partitionPoint p low high with
  | case1 low high hlt middle hp ih =>
      refine ih ?_ hh (fun i hi => before i (by omega)) behind
      rcases Nat.lt_or_ge middle n with h | h
      · exact h
      · exact absurd hp (by simp [behind middle h (by omega)])
  | case2 low high hlt middle hp ih =>
      refine ih hl ?_ before (fun i hi hm => behind i hi (by omega))
      rcases Nat.lt_or_ge middle n with h | h
      · exact absurd (before middle (by omega) h) hp
      · exact h
  | case3 low high hlt => omega

end CodeClones
