import Mathlib.Data.List.Induction
import CodeClones.Corpus

/-! Keys get the numbers of their places among the different keys, in the order of first occurrences. -/

namespace CodeClones.Corpus

instance : Std.TransCmp compareKinds := inferInstanceAs (Std.TransCmp (compareOn _))

instance : Std.LawfulEqCmp compareKinds where
  eq_of_compare h := Kind.rank_inj.mp (Std.LawfulEqOrd.eq_of_compare h)

namespace Numbering

variable {s : Numbering} {found : List Key} {k a b : Key} {n : ℕ}

def number? (s : Numbering) (k : Key) : Option ℕ :=
  match k.image with
  | none => s.collapsed[k.kind]?
  | some image => (s.withImage.getD k.kind ∅)[image]?

def numberOf (s : Numbering) (k : Key) : ℕ := (s.number? k).getD 0

def add (s : Numbering) (k : Key) : Numbering := (s.number k).2

def ofKeys (keys : List Key) : Numbering := keys.foldl add {}

lemma number_of_some (h : s.number? k = some n) : s.number k = (n, s) := by
  obtain ⟨kind, image⟩ := k
  cases image with
  | none =>
    have h : s.collapsed[kind]? = some n := h
    simp only [number, h]
  | some image =>
    have h : (s.withImage.getD kind ∅)[image]? = some n := h
    simp only [number, h]

lemma number_of_none (h : s.number? k = none) : (s.number k).1 = s.next ∧ (s.add k).next = s.next + 1 := by
  obtain ⟨kind, image⟩ := k
  cases image with
  | none =>
    have h : s.collapsed[kind]? = none := h
    simp only [add, number, h, and_self]
  | some image =>
    have h : (s.withImage.getD kind ∅)[image]? = none := h
    simp only [add, number, h, and_self]

lemma number?_add_of_none (h : s.number? k = none) (a : Key) :
    (s.add k).number? a = if k = a then some s.next else s.number? a := by
  obtain ⟨kind, image⟩ := k
  obtain ⟨kind', image'⟩ := a
  rw [number?] at h
  cases image with
  | none =>
    dsimp only at h
    simp only [add, number, h, number?]
    cases image' with
    | none => simp [Std.TreeMap.getElem?_insert]
    | some image' => simp
  | some image =>
    dsimp only at h
    simp only [add, number, h, number?]
    cases image' with
    | none => simp
    | some image' =>
      by_cases hkind : kind = kind'
      · simp [hkind, Std.TreeMap.getElem?_insert]
      · simp [hkind, Std.TreeMap.getD_insert]

lemma eraseDups_concat (found : List Key) (k : Key) :
    (found ++ [k]).eraseDups = if k ∈ found then found.eraseDups else found.eraseDups ++ [k] := by
  rw [List.eraseDups_append]
  split
  · simp_all [List.removeAll]
  · simp_all [List.removeAll, List.eraseDups_cons]

/-- The numbers of the keys are their places among the different ones. -/
structure Lists (s : Numbering) (found : List Key) : Prop where
  number?_eq_some_iff : ∀ (k : Key) (n : ℕ), s.number? k = some n ↔ found.eraseDups[n]? = some k
  next : s.next = found.eraseDups.length

lemma Lists.isSome_iff (h : Lists s found) : (s.number? k).isSome ↔ k ∈ found := by
  rw [Option.isSome_iff_exists, ← List.mem_eraseDups, List.mem_iff_getElem?]
  exact exists_congr fun n => h.number?_eq_some_iff k n

lemma Lists.add (h : Lists s found) (k : Key) : Lists (s.add k) (found ++ [k]) := by
  by_cases hk : k ∈ found
  · obtain ⟨n, hn⟩ := Option.isSome_iff_exists.mp (h.isSome_iff.mpr hk)
    have hadd : s.add k = s := by rw [Numbering.add, number_of_some hn]
    rw [hadd]
    exact ⟨by rw [eraseDups_concat, if_pos hk]; exact h.number?_eq_some_iff,
      by rw [eraseDups_concat, if_pos hk]; exact h.next⟩
  · have hnone : s.number? k = none := Option.not_isSome_iff_eq_none.mp fun hs => hk (h.isSome_iff.mp hs)
    refine ⟨fun a n => ?_, ?_⟩
    · rw [eraseDups_concat, if_neg hk, number?_add_of_none hnone, h.next]
      by_cases ha : k = a
      · subst ha
        have hn : ∀ m, found.eraseDups[m]? ≠ some k := fun m hm =>
          hk (List.mem_eraseDups.mp (List.mem_of_getElem? hm))
        rcases Nat.lt_trichotomy n found.eraseDups.length with hl | rfl | hl
        · rw [if_pos rfl, List.getElem?_append_left hl]
          exact iff_of_false (by simp; omega) (hn n)
        · simp
        · rw [if_pos rfl, List.getElem?_append_right (Nat.le_of_lt hl),
            List.getElem?_eq_none (by rw [List.length_singleton]; omega)]
          refine iff_of_false (fun he => ?_) (by simp)
          rw [Option.some.injEq] at he
          omega
      · rw [if_neg ha, h.number?_eq_some_iff]
        rcases Nat.lt_or_ge n found.eraseDups.length with hl | hl
        · rw [List.getElem?_append_left hl]
        · rw [List.getElem?_append_right hl, List.getElem?_eq_none hl]
          refine iff_of_false (by simp) fun he => ha ?_
          simpa using List.mem_of_getElem? he |> List.mem_singleton.mp |> Eq.symm
    · rw [eraseDups_concat, if_neg hk, (number_of_none hnone).2, List.length_append, h.next]
      rfl

lemma ofKeys_append (keys keys' : List Key) : ofKeys (keys ++ keys') = keys'.foldl add (ofKeys keys) :=
  List.foldl_append

lemma lists_ofKeys (keys : List Key) : Lists (ofKeys keys) keys := by
  induction keys using List.reverseRecOn with
  | nil =>
    refine ⟨fun k n => iff_of_false ?_ (by simp), rfl⟩
    rw [number?]
    split <;> simp [ofKeys]
  | append_singleton keys k ih =>
    rw [ofKeys_append]
    exact ih.add k

lemma Lists.number?_eq_some_numberOf (h : Lists s found) (hk : k ∈ found) : s.number? k = some (s.numberOf k) := by
  obtain ⟨n, hn⟩ := Option.isSome_iff_exists.mp (h.isSome_iff.mpr hk)
  rw [numberOf, hn, Option.getD_some]

lemma Lists.getElem?_numberOf (h : Lists s found) (hk : k ∈ found) : found.eraseDups[s.numberOf k]? = some k :=
  (h.number?_eq_some_iff k _).mp (h.number?_eq_some_numberOf hk)

lemma Lists.numberOf_lt (h : Lists s found) (hk : k ∈ found) : s.numberOf k < s.next := by
  rw [h.next]
  exact (List.getElem?_eq_some_iff.mp (h.getElem?_numberOf hk)).1

lemma Lists.numberOf_inj (h : Lists s found) (ha : a ∈ found) (hb : b ∈ found) :
    s.numberOf a = s.numberOf b ↔ a = b := by
  constructor
  · intro he
    have hga := h.getElem?_numberOf ha
    rw [he, h.getElem?_numberOf hb, Option.some.injEq] at hga
    exact hga.symm
  · rintro rfl
    rfl

lemma getElem?_eraseDups_append {found : List Key} (rest : List Key) {n : ℕ} (hn : n < found.eraseDups.length) :
    (found ++ rest).eraseDups[n]? = found.eraseDups[n]? := by
  rw [List.eraseDups_append, List.getElem?_append_left hn]

lemma Lists.numberOf_eq {s' : Numbering} {rest : List Key} (h : Lists s found) (h' : Lists s' (found ++ rest))
    (hk : k ∈ found) : s'.numberOf k = s.numberOf k := by
  have hn := h.getElem?_numberOf hk
  rw [← getElem?_eraseDups_append rest (List.getElem?_eq_some_iff.mp hn).1] at hn
  rw [numberOf, (h'.number?_eq_some_iff k _).mpr hn, Option.getD_some]

lemma Lists.exists_before {u v : List Key} {m : ℕ} (h : Lists s (u ++ k :: v)) (hk : s.number? k = some n)
    (hm : m < n) : ∃ a ∈ u, s.number? a = some m := by
  have hin : ∀ i < (u ++ [k]).eraseDups.length, (u ++ k :: v).eraseDups[i]? = (u ++ [k]).eraseDups[i]? := by
    intro i hi
    rw [← getElem?_eraseDups_append v hi, List.append_assoc, List.singleton_append]
  obtain ⟨i, hi⟩ := List.getElem?_of_mem (List.mem_eraseDups.mpr (by simp : k ∈ u ++ [k]))
  obtain ⟨hil, -⟩ := List.getElem?_eq_some_iff.mp hi
  have hni := (h.number?_eq_some_iff k i).mpr ((hin i hil).trans hi)
  rw [hk, Option.some.injEq] at hni
  subst hni
  have ha := List.getElem?_eq_getElem (Nat.lt_trans hm hil)
  have hnum := (h.number?_eq_some_iff _ m).mpr ((hin m (Nat.lt_trans hm hil)).trans ha)
  rcases List.mem_append.mp (List.mem_eraseDups.mp (List.mem_of_getElem? ha)) with hs | hs
  · exact ⟨_, hs, hnum⟩
  · rw [List.mem_singleton.mp hs, hk, Option.some.injEq] at hnum
    omega

end Numbering

end CodeClones.Corpus
