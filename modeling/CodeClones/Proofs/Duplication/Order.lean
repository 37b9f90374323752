import Mathlib.Data.Prod.Lex
import Mathlib.Data.List.Lex
import Mathlib.Order.WithBot
import CodeClones.Duplication.Resolve
import CodeClones.Proofs.Lists

/-! The orders of a report: of the occurrences of a duplication and of the duplications themselves. -/

namespace CodeClones

instance : Std.TransCmp Occurrence.compare :=
  inferInstanceAs <| Std.TransCmp <| compareLex (compareOn fun x : Occurrence => x.file) <|
    compareLex (compareOn fun x : Occurrence => x.first.line) <|
      compareLex (compareOn fun x : Occurrence => x.first.column) (compareOn fun x : Occurrence => x.startToken)

instance : Std.TransCmp Occurrence.compareHeads :=
  inferInstanceAs <| Std.TransCmp <| compareLex (compareOn fun x : Occurrence => x.file) <|
    compareLex (compareOn fun x : Occurrence => x.first.line) (compareOn fun x : Occurrence => x.first.column)

namespace Occurrence

variable {x y : Occurrence}

def place (x : Occurrence) : ℕ ×ₗ ℕ ×ₗ ℕ := toLex (x.file, toLex (x.first.line, x.first.column))

lemma compareHeads_eq_lt : x.compareHeads y = .lt ↔ x.place < y.place := by
  simp only [compareHeads, place, Ordering.then_eq_lt, Nat.compare_eq_lt, Nat.compare_eq_eq, Prod.Lex.toLex_lt_toLex]

lemma compareHeads_eq_eq : x.compareHeads y = .eq ↔ x.place = y.place := by
  simp only [compareHeads, place, Ordering.then_eq_eq, Nat.compare_eq_eq, EmbeddingLike.apply_eq_iff_eq, Prod.mk.injEq]

lemma compare_eq_then (x y : Occurrence) :
    x.compare y = (x.compareHeads y).then (Ord.compare x.startToken y.startToken) := by
  simp only [compare, compareHeads, Ordering.then_assoc]

lemma isLE_compare :
    (x.compare y).isLE = true ↔ x.place < y.place ∨ x.place = y.place ∧ x.startToken ≤ y.startToken := by
  rw [compare_eq_then, Ordering.isLE_then_iff_or, compareHeads_eq_lt, compareHeads_eq_eq, Nat.isLE_compare]

lemma compare_trans {x y z : Occurrence} (hxy : (x.compare y).isLE = true) (hyz : (y.compare z).isLE = true) :
    (x.compare z).isLE = true :=
  Std.TransCmp.isLE_trans hxy hyz

lemma compare_total (x y : Occurrence) : ((x.compare y).isLE || (y.compare x).isLE) = true := by
  have hswap : y.compare x = (x.compare y).swap := Std.OrientedCmp.eq_swap
  rw [hswap]
  cases x.compare y <;> rfl

end Occurrence

namespace Duplication

lemma compareHeads_eq (s t : List Occurrence) :
    compareHeads s t = List.compareLex Occurrence.compareHeads (s.take 1) (t.take 1) := by
  cases s with
  | nil => cases t <;> rfl
  | cons x s =>
    cases t with
    | nil => rfl
    | cons y t => simp [compareHeads, List.compareLex_cons_cons, List.compareLex_nil_nil]

instance : Std.TransCmp compareHeads := by
  have h : compareHeads = Ordering.byKey (List.take 1) (List.compareLex Occurrence.compareHeads) :=
    funext₂ compareHeads_eq
  rw [h]
  infer_instance

instance : Std.TransCmp compare :=
  inferInstanceAs <| Std.TransCmp <| compareLex (Ordering.byKey (fun x : Duplication => x.tokens) (flip Ord.compare)) <|
    compareLex (Ordering.byKey (fun x : Duplication => x.occurrences) compareHeads) <|
      compareLex (compareOn fun x : Duplication => x.hash) <|
        Ordering.byKey (fun x : Duplication => x.occurrences.map (·.startingPoint)) <|
          List.compareLex <| compareLex (compareOn fun x : ℕ × ℕ => x.1) (compareOn fun x : ℕ × ℕ => x.2)

lemma compare_trans {a b c : Duplication} (hab : (a.compare b).isLE = true) (hbc : (b.compare c).isLE = true) :
    (a.compare c).isLE = true :=
  Std.TransCmp.isLE_trans hab hbc

lemma compare_total (a b : Duplication) : ((a.compare b).isLE || (b.compare a).isLE) = true := by
  have hswap : b.compare a = (a.compare b).swap := Std.OrientedCmp.eq_swap
  rw [hswap]
  cases a.compare b <;> rfl

/-! ### The order of a report as an order of ranks -/

variable {s t : List Occurrence} {a b : Duplication}

def placeOfFirst : List Occurrence → WithBot (ℕ ×ₗ ℕ ×ₗ ℕ)
  | [] => ⊥
  | x :: _ => x.place

/-- What decides the place of a duplication in a report: how long it is, where it occurs first, its hash, and
all tokens at which it occurs. -/
def rank (dup : Duplication) : ℕᵒᵈ ×ₗ WithBot (ℕ ×ₗ ℕ ×ₗ ℕ) ×ₗ ℕ ×ₗ List (ℕ ×ₗ ℕ) :=
  toLex (OrderDual.toDual dup.tokens, toLex (placeOfFirst dup.occurrences,
    toLex (dup.hash.toNat, dup.occurrences.map fun x => toLex x.startingPoint)))

lemma compareHeads_eq_lt : compareHeads s t = .lt ↔ placeOfFirst s < placeOfFirst t := by
  cases s <;> cases t <;> simp [compareHeads, placeOfFirst, Occurrence.compareHeads_eq_lt]

lemma compareHeads_eq_eq : compareHeads s t = .eq ↔ placeOfFirst s = placeOfFirst t := by
  cases s <;> cases t <;> simp [compareHeads, placeOfFirst, Occurrence.compareHeads_eq_eq]

lemma compareLex_eq_lt {s t : List (ℕ × ℕ)} :
    List.compareLex (fun x y : ℕ × ℕ => (Ord.compare x.1 y.1).then (Ord.compare x.2 y.2)) s t = .lt ↔
      s.map toLex < t.map toLex := by
  induction s generalizing t with
  | nil => cases t <;> simp [List.compareLex_nil_nil, List.compareLex_nil_cons]
  | cons x s ih =>
    cases t with
    | nil => simp [List.compareLex_cons_nil]
    | cons y t =>
      simp only [List.compareLex_cons_cons, Ordering.then_eq_lt, Ordering.then_eq_eq, Nat.compare_eq_lt,
        Nat.compare_eq_eq, ih, List.map_cons, List.cons_lt_cons_iff, Prod.Lex.toLex_lt_toLex,
        EmbeddingLike.apply_eq_iff_eq, Prod.ext_iff]

lemma compareLex_eq_eq {s t : List (ℕ × ℕ)} :
    List.compareLex (fun x y : ℕ × ℕ => (Ord.compare x.1 y.1).then (Ord.compare x.2 y.2)) s t = .eq ↔
      s.map toLex = t.map toLex := by
  induction s generalizing t with
  | nil => cases t <;> simp [List.compareLex_nil_nil, List.compareLex_nil_cons]
  | cons x s ih =>
    cases t with
    | nil => simp [List.compareLex_cons_nil]
    | cons y t =>
      simp only [List.compareLex_cons_cons, Ordering.then_eq_eq, Nat.compare_eq_eq, ih, List.map_cons,
        List.cons.injEq, EmbeddingLike.apply_eq_iff_eq, Prod.ext_iff]

lemma compare_hash_eq_lt {x y : UInt64} : Ord.compare x y = .lt ↔ x.toNat < y.toNat :=
  Std.compare_eq_lt.trans UInt64.lt_iff_toNat_lt

lemma compare_hash_eq_eq {x y : UInt64} : Ord.compare x y = .eq ↔ x.toNat = y.toNat := by
  rw [Std.compare_eq_eq_iff_eq, UInt64.toNat_inj]

lemma compare_eq_lt : a.compare b = .lt ↔ a.rank < b.rank := by
  simp only [compare, rank, Ordering.then_eq_lt, Nat.compare_eq_lt, Nat.compare_eq_eq, compareHeads_eq_lt,
    compareHeads_eq_eq, compare_hash_eq_lt, compare_hash_eq_eq, compareLex_eq_lt, Prod.Lex.toLex_lt_toLex,
    OrderDual.toDual_lt_toDual, EmbeddingLike.apply_eq_iff_eq, List.map_map, eq_comm (a := b.tokens)]
  rfl

lemma compare_eq_eq : a.compare b = .eq ↔ a.rank = b.rank := by
  simp only [compare, rank, Ordering.then_eq_eq, Nat.compare_eq_eq, compareHeads_eq_eq, compare_hash_eq_eq,
    compareLex_eq_eq, EmbeddingLike.apply_eq_iff_eq, Prod.mk.injEq, List.map_map, eq_comm (a := b.tokens)]
  rfl

lemma isLE_compare_iff : (a.compare b).isLE = true ↔ a.rank ≤ b.rank := by
  rw [le_iff_lt_or_eq, ← compare_eq_lt, ← compare_eq_eq]
  cases a.compare b <;> simp

lemma pairwise_report (outcomes : List Outcome) : (report outcomes).Pairwise fun a b => a.rank ≤ b.rank := by
  have hsorted := @List.pairwise_mergeSort Duplication (fun a b => (a.compare b).isLE) (fun _ _ _ => compare_trans)
    compare_total (outcomes.flatMap (·.duplications))
  exact hsorted.imp isLE_compare_iff.mp

end Duplication

end CodeClones
