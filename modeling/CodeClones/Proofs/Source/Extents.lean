import Mathlib.Tactic.Common
import CodeClones.Proofs.Source.Breaks

/-! How much of a text a construct takes, and where it may end: behind a character that is not blank, or where
the line ends. -/

namespace CodeClones.Source

variable {l : Language} {n k depth marks : ℕ} {text body behind s t : List Char} {c quote : Char}

def EndsDark (s : List Char) : Prop := ∃ c, s.getLast? = some c ∧ Text.isBlank c = false

lemma endsDark_singleton (h : Text.isBlank c = false) : EndsDark [c] := ⟨c, rfl, h⟩

lemma EndsDark.append (h : EndsDark t) (s : List Char) : EndsDark (s ++ t) := by
  obtain ⟨c, hc, hd⟩ := h
  exact ⟨c, by simp [List.getLast?_append, hc], hd⟩

lemma endsDark_cons_of_forall (hc : Text.isBlank c = false) (hb : ∀ x ∈ body, Text.isBlank x = false) :
    EndsDark (c :: body) := by
  have hdark : ∀ x ∈ c :: body, Text.isBlank x = false := List.forall_mem_cons.mpr ⟨hc, hb⟩
  exact ⟨_, List.getLast?_eq_some_getLast (List.cons_ne_nil c body), hdark _ (List.getLast_mem _)⟩

def EndsLine (l : Language) (behind : List Char) : Prop :=
  behind = [] ∨ behind.head? = some '\n' ∨ l.opensLineComment behind = true

/-- A construct of which `n` characters stand before the text takes it up to its character number `k`. -/
def Takes (l : Language) (n : ℕ) (text : List Char) (k : ℕ) : Prop :=
  ∃ body behind, text = body ++ behind ∧ k = n + body.length ∧ (EndsDark body ∨ EndsLine l behind)

namespace Takes

lemma all (l : Language) (n : ℕ) (text : List Char) : Takes l n text (n + text.length) :=
  ⟨text, [], (List.append_nil text).symm, rfl, .inr (.inl rfl)⟩

lemma none (h : EndsLine l text) (n : ℕ) : Takes l n text n :=
  ⟨[], text, rfl, rfl, .inr h⟩

lemma dark (h : EndsDark body) (n : ℕ) (behind : List Char) : Takes l n (body ++ behind) (n + body.length) :=
  ⟨body, behind, rfl, rfl, .inl h⟩

lemma append (h : Takes l (n + s.length) t k) : Takes l n (s ++ t) k := by
  obtain ⟨body, behind, rfl, rfl, he⟩ := h
  refine ⟨s ++ body, behind, by rw [List.append_assoc], by rw [List.length_append, Nat.add_assoc], ?_⟩
  exact he.imp_left fun hd => hd.append s

lemma cons (h : Takes l (n + 1) text k) : Takes l n (c :: text) k := append (s := [c]) h

lemma of_drop {m : ℕ} (h : Takes l (n + k) (text.drop k) m) (hk : k ≤ text.length) : Takes l n text m := by
  rw [← List.take_append_drop k text]
  exact append (by rwa [List.length_take, Nat.min_eq_left hk])

lemma shift (h : Takes l n text k) (m : ℕ) : Takes l (n + m) text (k + m) := by
  obtain ⟨body, behind, rfl, rfl, he⟩ := h
  exact ⟨body, behind, rfl, Nat.add_right_comm _ _ _, he⟩

lemma le (h : Takes l n text k) : n ≤ k ∧ k ≤ n + text.length := by
  obtain ⟨body, behind, rfl, rfl, -⟩ := h
  rw [List.length_append]
  omega

end Takes

namespace Extent

lemma takes_blockComment (l : Language) (nested : Bool) (depth n : ℕ) (text : List Char) :
    Takes l n text (blockComment nested depth n text).length := by
  fun_induction blockComment nested depth n text with
  | case1 => exact .all l _ []
  | case2 n c rest h =>
    obtain ⟨rest, rfl⟩ := List.head?_eq_some_iff.mp h.2
    exact .dark (show EndsDark [c, '/'] from ⟨'/', rfl, by decide⟩) n rest
  | case3 depth n c rest h h' ih =>
    obtain ⟨rest, rfl⟩ := List.head?_eq_some_iff.mp h.2
    exact .append (s := [c, '/']) ih
  | case4 depth n c rest h h' ih =>
    obtain ⟨rest, rfl⟩ := List.head?_eq_some_iff.mp h'.2.2
    exact .append (s := [c, '*']) ih
  | case5 depth n c rest h h' ih => exact .cons ih

lemma literal_cons (d : Delimiter) (n : ℕ) (c : Char) (s : List Char) : literal d n (c :: s) =
    if c = '\n' ∧ ¬ d.multiline then .unclosed n
    else if c = '\\' ∧ d.escapes then if s = [] then .unclosed (n + 1) else literal d (n + 2) s.tail
    else if c = d.quote then .closed (n + 1)
    else literal d (n + 1) s := by
  cases s <;> simp [literal]

lemma takes_literal (l : Language) {d : Delimiter} (hd : Text.isBlank d.quote = false) (n : ℕ)
    (text : List Char) : Takes l n text (literal d n text).length := by
  fun_induction literal d n text with
  | case1 => exact .all l _ []
  | case2 n c rest h => exact .none (.inr (.inl (by rw [h.1]; rfl))) n
  | case3 n c h h' => exact .all l n [c]
  | case4 n c h h' x rest ih => exact .append (s := [c, x]) ih
  | case5 n rest h h' => exact .dark (endsDark_singleton hd) n rest
  | case6 n c rest h h' h'' ih => exact .cons ih

lemma literal_closed_append {d : Delimiter} {m : ℕ} {u : List Char} (h : literal d n u = .closed m) (z : List Char) :
    literal d n (u ++ z) = .closed m := by
  fun_induction literal d n u with
  | case1 => simp at h
  | case2 => simp at h
  | case3 => simp at h
  | case4 n c hc hc' e rest ih =>
    rw [List.cons_append, literal_cons, if_neg hc, if_pos hc', List.cons_append, if_neg (List.cons_ne_nil _ _)]
    exact ih h
  | case5 n rest hc hc' =>
    rw [List.cons_append, literal_cons, if_neg hc, if_neg hc', if_pos rfl, h]
  | case6 n c rest hc hc' hc'' ih =>
    rw [List.cons_append, literal_cons, if_neg hc, if_neg hc', if_neg hc'']
    exact ih h

lemma takes_tripleQuoted (l : Language) (hq : Text.isBlank quote = false) (n : ℕ) (text : List Char) :
    Takes l n text (tripleQuoted quote n text).length := by
  fun_induction tripleQuoted quote n text with
  | case1 => exact .all l _ []
  | case2 n c rest h =>
    obtain ⟨rest, rfl⟩ := List.isPrefixOf_iff_prefix.mp h.2
    exact .dark (show EndsDark [c, quote, quote] from ⟨quote, rfl, hq⟩) n rest
  | case3 n h => exact .all l n ['\\']
  | case4 n x rest h ih => exact .append (s := ['\\', x]) ih
  | case5 n c rest h h' ih => exact .cons ih

lemma takes_rawString (l : Language) (marks n : ℕ) (text : List Char) :
    Takes l n text (rawString marks n text).length := by
  fun_induction rawString marks n text with
  | case1 => exact .all l _ []
  | case2 n c rest h =>
    obtain ⟨rest, rfl⟩ := List.isPrefixOf_iff_prefix.mp h.2
    have hb : EndsDark (c :: List.replicate marks '#') := by
      cases marks with
      | zero => exact endsDark_singleton (by rw [h.1]; decide)
      | succ marks => exact ⟨'#', by simp [List.getLast?_cons, List.getLast?_replicate], by decide⟩
    simpa [length, Nat.add_assoc, Nat.add_comm marks] using Takes.dark hb n rest
  | case3 n c rest h ih => exact .cons ih

lemma takes_verbatimString (l : Language) (n : ℕ) (text : List Char) :
    Takes l n text (verbatimString n text).length := by
  fun_induction verbatimString n text with
  | case1 => exact .all l _ []
  | case2 n rest ih => exact .append (s := ['"', '"']) ih
  | case3 n rest h => exact .dark (endsDark_singleton (by decide)) n rest
  | case4 n c rest h ih => exact .cons ih

lemma takes_string (l : Language) (hq : Text.isBlank quote = false) (n : ℕ) (text : List Char) :
    Takes l n text (string l quote n text).length := by
  rw [string]
  split
  · next h =>
    obtain ⟨rest, rfl⟩ := List.isPrefixOf_iff_prefix.mp h.2
    exact .append (s := [quote, quote]) (takes_tripleQuoted l hq (n + 2) rest)
  · exact takes_literal l hq n text

end Extent

end CodeClones.Source
