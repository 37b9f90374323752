import CodeClones.Proofs.Source.Readings

/-! Words, numbers, names and marks end where a blank or a line comment begins, whatever follows. -/

namespace CodeClones.Source

variable {l : Language} {c : Char} {n : ℕ} {u z mark : List Char} {p : Char → Bool} {kind : Kind}

def Breaking (l : Language) (z : List Char) : Prop := ∀ x, z.head? = some x → Breaks l x

namespace Breaking

variable (hz : Breaking l z)

include hz

lemma head?_ne (hc : c ∈ markCharacters) : z.head? ≠ some c := fun h => (hz c h).ne hc rfl

lemma head?_append (hc : c ∈ markCharacters) (u : List Char) : (u ++ z).head? = some c ↔ u.head? = some c := by
  cases u with
  | nil => simp [hz.head?_ne hc]
  | cons d u => rfl

lemma any_head?_append (hp : ∀ x, Breaks l x → p x = false) (u : List Char) :
    (u ++ z).head?.any p = u.head?.any p := by
  cases u with
  | nil =>
    cases hh : z.head? with
    | none => simp [hh]
    | some x => simp [hh, hp x (hz x hh)]
  | cons d u => rfl

lemma takeWhile_append (hp : ∀ x, Breaks l x → p x = false) (u : List Char) :
    (u ++ z).takeWhile p = u.takeWhile p := by
  induction u with
  | nil =>
    cases z with
    | nil => rfl
    | cons x z => simp [hp x (hz x rfl)]
  | cons d u ih => simp only [List.cons_append, List.takeWhile_cons, ih]

lemma isPrefixOf_append (hm : ∀ x ∈ mark, ¬ Breaks l x) (u : List Char) :
    mark.isPrefixOf (u ++ z) = mark.isPrefixOf u := by
  induction mark generalizing u with
  | nil => simp
  | cons m mark ih =>
    cases u with
    | nil =>
      cases z with
      | nil => rfl
      | cons x z =>
        have hne : m ≠ x := fun h => hm m List.mem_cons_self (h ▸ hz x rfl)
        simp [List.isPrefixOf_cons_cons, hne]
    | cons d u =>
      simp only [List.cons_append, List.isPrefixOf_cons_cons, ih (fun x hx => hm x (List.mem_cons_of_mem m hx))]

lemma isPrefixOf_append_marks (mark : List Char) (hm : mark ⊆ markCharacters) (u : List Char) :
    mark.isPrefixOf (u ++ z) = mark.isPrefixOf u :=
  hz.isPrefixOf_append (fun _ hx hb => hb.ne (hm hx) rfl) u

lemma numberLength_append (hex exponent : Bool) (n : ℕ) (u : List Char) :
    numberLength hex exponent n (u ++ z) = numberLength hex exponent n u := by
  induction u generalizing exponent n with
  | nil =>
    cases z with
    | nil => rfl
    | cons x z =>
      have hx := hz x rfl
      have hsign : isSign x = false := by
        simp [isSign, hx.ne (c := '+') (by decide), hx.ne (c := '-') (by decide)]
      simp [numberLength, hsign, hx.continuesNumber, hx.ne (c := '.') (by decide)]
  | cons d u ih =>
    simp only [List.cons_append, numberLength, ih, hz.any_head?_append (fun x hx => hx.isDigit)]

lemma opensHex_append (c : Char) (u : List Char) : opensHex c (u ++ z) = opensHex c u := by
  have hne : ∀ x, continuesNumber x = true → ((u ++ z).head? = some x ↔ u.head? = some x) := by
    intro x hx
    cases u with
    | nil =>
      refine iff_of_false (fun h => ?_) (by simp)
      rw [(hz x h).continuesNumber] at hx
      exact absurd hx (by decide)
    | cons d u => rfl
  simp only [opensHex, hne 'x' (by decide), hne 'X' (by decide)]

lemma opensNumber_append (c : Char) (u : List Char) : opensNumber c (u ++ z) = opensNumber c u := by
  rw [opensNumber, opensNumber, hz.any_head?_append fun x hx => hx.isDigit]

lemma verbatimMark?_append (c : Char) (u : List Char) : verbatimMark? c (u ++ z) = verbatimMark? c u := by
  simp only [verbatimMark?, hz.isPrefixOf_append_marks ['@', '"'] (by decide),
    hz.isPrefixOf_append_marks ['$', '"'] (by decide),
    hz.isPrefixOf_append_marks ['"'] (by decide)]

lemma opensLifetime_append (c : Char) (u : List Char) : opensLifetime l c (u ++ z) = opensLifetime l c u := by
  rw [opensLifetime, opensLifetime, hz.any_head?_append fun x hx => hx.opensWord]
  cases u with
  | nil => simp
  | cons d u =>
    have hquote := hz.head?_append (c := '\'') (by decide) u
    rw [List.head?_eq_getElem?, List.head?_eq_getElem?] at hquote
    simp [hquote]

lemma metadataName?_append (u : List Char) : metadataName? l (u ++ z) = metadataName? l u := by
  rw [metadataName?, metadataName?,
    hz.takeWhile_append fun x hx => by simp [hx.continuesWord, hx.ne (c := '.') (by decide)]]

lemma operatorLength_append (hl : l ∈ Language.builtin) (c : Char) (u : List Char) :
    operatorLength l (c :: (u ++ z)) = operatorLength l (c :: u) := by
  have hop : ∀ op ∈ l.operators, op.toList.isPrefixOf (c :: (u ++ z)) = op.toList.isPrefixOf (c :: u) := by
    intro op hop
    obtain ⟨x, s, hs⟩ := exists_operator_cons hl hop
    have hm : ∀ y ∈ s, ¬ Breaks l y := fun y hy hb => hb.not_mem_operator hl hop (by simpa [hs] using hy)
    rw [hs, List.isPrefixOf_cons_cons, List.isPrefixOf_cons_cons, hz.isPrefixOf_append hm]
  rw [operatorLength, operatorLength, List.filter_congr hop]

end Breaking

/-! ### Readings that end before a break -/

lemma plain_append (kind : Kind) (c : Char) (z : List Char) (hn : n ≤ u.length) :
    Reading.plain kind c (u ++ z) n = .plain kind c u n := by
  rw [Reading.plain, Reading.plain, List.take_append_of_le_length hn]

lemma length_takeWhile_le (p : Char → Bool) (u : List Char) : (u.takeWhile p).length ≤ u.length :=
  (List.takeWhile_prefix p).length_le

variable (hz : Breaking l z)

include hz

lemma readNumber?_append (c : Char) (u : List Char) : readNumber? c (u ++ z) = readNumber? c u := by
  rw [readNumber?, readNumber?, hz.opensNumber_append, hz.opensHex_append, hz.numberLength_append]
  obtain ⟨body, behind, hu, hn, -⟩ := numberLength_eq (opensHex c u) false 0 u
  rw [plain_append .number c z (by rw [hn, hu, List.length_append]; omega)]

lemma readOperator_append (hl : l ∈ Language.builtin) (c : Char) (u : List Char) :
    readOperator l c (u ++ z) = readOperator l c u := by
  rw [readOperator, readOperator, hz.operatorLength_append hl]
  rcases operatorLength_eq l (c :: u) with hn | ⟨op, -, hpre, hn⟩
  · rw [hn]
    dsimp only
    rw [plain_append .operator c z (Nat.zero_le _)]
  · have hle := hpre.length_le
    rw [hn, List.length_cons] at hle
    cases hk : operatorLength l (c :: u) with
    | zero =>
      dsimp only
      rw [plain_append .operator c z (Nat.zero_le _)]
    | succ k =>
      dsimp only
      rw [plain_append .operator c z (by omega)]

end CodeClones.Source
