import Mathlib.Data.Set.Basic
import CodeClones.Proofs.Duplication.Greedy
import CodeClones.Token

/-! Runs in numbered texts, without any order among the texts. A place is the number of a text and a position
in it. -/

namespace CodeClones

open Duplication

abbrev Texts := ℕ → Option (List Key)

namespace Texts

variable (texts : Texts) (run : List Key)

def starts (text : ℕ) : List ℕ :=
  (texts text).elim [] fun keys => (List.range keys.length).filter fun i => run <+: keys.drop i

def Occurs (x : ℕ × ℕ) : Prop := x.2 ∈ texts.starts run x.1

instance : DecidablePred (texts.Occurs run) := fun x => inferInstanceAs (Decidable (x.2 ∈ texts.starts run x.1))

def before? (x : ℕ × ℕ) : Option Key :=
  match x.2 with
  | 0 => none
  | i + 1 => (texts x.1).bind (·[i]?)

def behind? (length : ℕ) (x : ℕ × ℕ) : Option Key := (texts x.1).bind (·[x.2 + length]?)

def Apart (length : ℕ) (x y : ℕ × ℕ) : Prop := x.1 = y.1 → x.2 + length ≤ y.2 ∨ y.2 + length ≤ x.2

/-- Two places of a run that are apart, with different keys before them and behind them. An edge of a text is
like no key. -/
structure IsMaximalPair (x y : ℕ × ℕ) : Prop where
  left : texts.Occurs run x
  right : texts.Occurs run y
  apart : Apart run.length x y
  before : ¬ ∃ key, texts.before? x = some key ∧ texts.before? y = some key
  behind : ¬ ∃ key, texts.behind? run.length x = some key ∧ texts.behind? run.length y = some key

structure IsMaximal : Prop where
  several : ∃ x y, x ≠ y ∧ texts.Occurs run x ∧ texts.Occurs run y
  before : ¬ ∃ key, ∀ x, texts.Occurs run x → texts.before? x = some key
  behind : ¬ ∃ key, ∀ x, texts.Occurs run x → texts.behind? run.length x = some key

def IsOverlapFree : Prop := ∀ x y, x ≠ y → texts.Occurs run x → texts.Occurs run y → Apart run.length x y

/-- The places of a run that a chain through two of them takes: in each text from left to right those that
leave room for the ones taken before, and for the two. -/
def group (x y : ℕ × ℕ) : Set (ℕ × ℕ) :=
  {z | z.2 ∈ chainOnto run.length [] ((texts.starts run z.1).filter fun i => (z.1, i) = x ∨ (z.1, i) = y)
    (texts.starts run z.1)}

variable {texts run} {x y z : ℕ × ℕ} {text i : ℕ} {keys : List Key}

lemma starts_sorted : (texts.starts run text).Pairwise (· < ·) := by
  rw [starts]
  cases texts text with
  | none => exact List.Pairwise.nil
  | some keys => exact List.pairwise_lt_range.sublist List.filter_sublist

lemma occurs_iff (hk : texts text = some keys) (hrun : run ≠ []) :
    texts.Occurs run (text, i) ↔ run <+: keys.drop i := by
  simp only [Occurs, starts, hk, Option.elim_some, List.mem_filter, List.mem_range, decide_eq_true_eq,
    and_iff_right_iff_imp]
  intro h
  by_contra hi
  rw [List.drop_eq_nil_of_le (Nat.not_lt.mp hi)] at h
  exact hrun (List.prefix_nil.mp h)

lemma exists_of_occurs (h : texts.Occurs run (text, i)) : ∃ keys, texts text = some keys ∧ run <+: keys.drop i := by
  rw [Occurs, starts] at h
  cases hk : texts text with
  | none =>
    rw [hk] at h
    exact absurd h List.not_mem_nil
  | some keys =>
    rw [hk, Option.elim_some, List.mem_filter, decide_eq_true_eq] at h
    exact ⟨keys, rfl, h.2⟩

lemma run_eq {run' : List Key} (h : texts.Occurs run z) (h' : texts.Occurs run' z) (hl : run.length = run'.length) :
    run = run' := by
  obtain ⟨keys, hk, hp⟩ := exists_of_occurs h
  obtain ⟨keys', hk', hp'⟩ := exists_of_occurs h'
  rw [hk, Option.some.injEq] at hk'
  rw [← hk'] at hp'
  exact (List.prefix_of_prefix_length_le hp hp' hl.le).eq_of_length hl

lemma IsMaximalPair.symm (h : texts.IsMaximalPair run x y) : texts.IsMaximalPair run y x :=
  ⟨h.right, h.left, fun he => (h.apart he.symm).symm, fun ⟨key, hy, hx⟩ => h.before ⟨key, hx, hy⟩,
    fun ⟨key, hy, hx⟩ => h.behind ⟨key, hx, hy⟩⟩

lemma IsMaximalPair.ne (h : texts.IsMaximalPair run x y) (hrun : run ≠ []) : x ≠ y := by
  rintro rfl
  have := List.length_pos_iff.mpr hrun
  have := h.apart rfl
  omega

lemma IsMaximalPair.isMaximal (h : texts.IsMaximalPair run x y) (hrun : run ≠ []) : texts.IsMaximal run :=
  ⟨⟨x, y, h.ne hrun, h.left, h.right⟩, fun ⟨key, hkey⟩ => h.before ⟨key, hkey x h.left, hkey y h.right⟩,
    fun ⟨key, hkey⟩ => h.behind ⟨key, hkey x h.left, hkey y h.right⟩⟩

lemma occurs_of_mem_group (h : z ∈ texts.group run x y) : texts.Occurs run z :=
  (mem_of_mem_chainOnto h).resolve_left List.not_mem_nil

lemma mem_group_iff (hx : texts.Occurs run x) (hy : texts.Occurs run y) :
    z ∈ texts.group run x y ↔ texts.Occurs run z ∧ ((z = x ∨ z = y) ∨
      (∀ w, w ∈ texts.group run x y → w.1 = z.1 → w.2 < z.2 → w.2 + run.length ≤ z.2) ∧
        ∀ w, w = x ∨ w = y → w.1 = z.1 → z.2 < w.2 → z.2 + run.length ≤ w.2) := by
  obtain ⟨text, i⟩ := z
  have hmem : ∀ w, w = x ∨ w = y → texts.Occurs run w := by
    rintro w (rfl | rfl)
    · exact hx
    · exact hy
  rw [group, Set.mem_ofPred_eq, mem_chain_iff starts_sorted List.filter_sublist]
  simp only [List.mem_filter, decide_eq_true_eq]
  refine and_congr_right fun hi => or_congr (and_iff_right hi) (and_congr ?_ ?_)
  · refine ⟨?_, fun h j hj hlt => h (text, j) hj rfl hlt⟩
    rintro h ⟨_, j⟩ hj rfl hlt
    exact h j hj hlt
  · refine ⟨?_, fun h j hj hlt => h (text, j) hj.2 rfl hlt⟩
    rintro h ⟨_, j⟩ hj rfl hlt
    exact h j ⟨hmem _ hj, hj⟩ hlt

lemma group_unique {places : Set (ℕ × ℕ)} (hx : texts.Occurs run x) (hy : texts.Occurs run y)
    (h : ∀ z, z ∈ places ↔ texts.Occurs run z ∧ ((z = x ∨ z = y) ∨
      (∀ w, w ∈ places → w.1 = z.1 → w.2 < z.2 → w.2 + run.length ≤ z.2) ∧
        ∀ w, w = x ∨ w = y → w.1 = z.1 → z.2 < w.2 → z.2 + run.length ≤ w.2)) :
    places = texts.group run x y := by
  ext ⟨text, i⟩
  induction i using Nat.strong_induction_on with
  | h i ih =>
    rw [h, mem_group_iff hx hy]
    refine and_congr_right fun _ => or_congr_right (and_congr_left fun _ => ?_)
    constructor
    · rintro hw ⟨_, j⟩ hj rfl hlt
      exact hw (_, j) ((ih j hlt).mpr hj) rfl hlt
    · rintro hw ⟨_, j⟩ hj rfl hlt
      exact hw (_, j) ((ih j hlt).mp hj) rfl hlt

lemma left_mem_group (hx : texts.Occurs run x) (hy : texts.Occurs run y) : x ∈ texts.group run x y :=
  (mem_group_iff hx hy).mpr ⟨hx, Or.inl (Or.inl rfl)⟩

lemma group_eq_of_isOverlapFree (h : texts.IsOverlapFree run) (hx : texts.Occurs run x) (hy : texts.Occurs run y) :
    texts.group run x y = {z | texts.Occurs run z} := by
  have hroom : ∀ {w z}, texts.Occurs run w → texts.Occurs run z → w.1 = z.1 → w.2 < z.2 →
      w.2 + run.length ≤ z.2 := by
    intro w z hw hz hn hlt
    rcases h w z (fun he => hlt.ne (he ▸ rfl)) hw hz hn with hle | hle
    · exact hle
    · omega
  refine (group_unique hx hy fun z => ?_).symm
  simp only [Set.mem_ofPred_eq, iff_self_and]
  refine fun hz => Or.inr ⟨fun w hw => hroom hw hz, ?_⟩
  rintro w (rfl | rfl) hn
  · exact hroom hz hx hn.symm
  · exact hroom hz hy hn.symm

end Texts

end CodeClones
