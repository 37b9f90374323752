import Mathlib
import CodeClones.Proofs.Lists
import CodeClones.Registry

/-! What a registry says is what the history of its registrations says. A name stands for the tokenizer of the
latest registration under it, and the languages are those of the registrations that still hold a name. -/

namespace CodeClones

structure Registration where
  tokenizer : Tokenizer
  aliases : List String

namespace Registration

def names (c : Registration) : List String := (c.tokenizer.language :: c.aliases).map String.toLower

/-- The registration at a place of a history was made under a name that no later one has. -/
def Holds (history : List Registration) (place : ℕ) (name : String) : Prop :=
  ∃ c, history[place]? = some c ∧ name ∈ c.names ∧ ∀ d ∈ history.drop (place + 1), name ∉ d.names

def Lists (history : List Registration) (place : ℕ) (language : String) : Prop :=
  (∃ c, history[place]? = some c ∧ c.tokenizer.language = language) ∧ ∃ name, Holds history place name

variable {history : List Registration} {c : Registration} {place : ℕ} {name : String}

lemma holds_append : Holds (history ++ [c]) place name ↔
    if name ∈ c.names then place = history.length else Holds history place name := by
  rcases Nat.lt_trichotomy place history.length with hlt | rfl | hgt
  · have hdrop : (history ++ [c]).drop (place + 1) = history.drop (place + 1) ++ [c] :=
      List.drop_append_of_le_length hlt
    simp only [Holds, List.getElem?_append_left hlt, hdrop, List.mem_append, List.mem_singleton, or_imp, forall_and,
      forall_eq]
    split <;> rename_i hn
    · simp [hn, hlt.ne]
    · simp [hn]
  · have hdrop : (history ++ [c]).drop (history.length + 1) = [] := by simp
    simp only [Holds, List.getElem?_concat_length, hdrop, Option.some.injEq, exists_eq_left', List.not_mem_nil,
      false_imp_iff, implies_true, and_true]
    split <;> rename_i hn
    · simp [hn]
    · simp [hn]
  · have hnone : (history ++ [c])[place]? = none := by simp; omega
    simp only [Holds, hnone]
    split
    · simp; omega
    · simp [List.getElem?_eq_none hgt.le]

lemma find?_eq_some_iff : history.reverse.find? (fun c => name ∈ c.names) = some c ↔
    ∃ place, history[place]? = some c ∧ Holds history place name := by
  rw [find?_reverse_eq_some_iff]
  constructor
  · rintro ⟨place, hc, hn, hlater⟩
    exact ⟨place, hc, c, hc, of_decide_eq_true hn, fun d hd => by simpa using hlater d hd⟩
  · rintro ⟨place, hc, d, hd, hn, hlater⟩
    obtain rfl : c = d := Option.some.inj (hc.symm.trans hd)
    exact ⟨place, hc, decide_eq_true hn, fun d hd => by simpa using hlater d hd⟩

lemma exists_holds (hc : c ∈ history) (hn : name ∈ c.names) : ∃ place, Holds history place name := by
  have hsome : (history.reverse.find? fun c => name ∈ c.names).isSome :=
    List.find?_isSome.mpr ⟨c, List.mem_reverse.mpr hc, decide_eq_true hn⟩
  obtain ⟨d, hd⟩ := Option.isSome_iff_exists.mp hsome
  obtain ⟨place, -, hplace⟩ := find?_eq_some_iff.mp hd
  exact ⟨place, hplace⟩

end Registration

namespace Registry

open Registration

def after (r : Registry) (calls : List Registration) : Registry :=
  calls.foldl (fun r c => r.register c.tokenizer c.aliases) r

def builtinHistory : List Registration := Language.builtin.map fun l => ⟨.ofLanguage l, l.aliases⟩

lemma builtin_eq_after : builtin = empty.after builtinHistory := by
  simp only [builtin, after, builtinHistory, List.foldl_map]

structure Records (r : Registry) (history : List Registration) : Prop where
  tokenizers : r.tokenizers = history.map (·.tokenizer)
  nodup : (r.names.map Prod.fst).Nodup
  lookup : ∀ name place, r.names.lookup name = some place ↔ Holds history place name

variable {r : Registry} {history calls : List Registration} {c : Registration} {names : List (String × ℕ)}
  {name language : String} {place : ℕ}

lemma lookup_assign (names : List (String × ℕ)) (name other : String) (place : ℕ) :
    (assign names name place).lookup other = if other = name then some place else names.lookup other := by
  split <;> rename_i h
  · rw [h, lookup_assign_self]
  · have hfilter : (names.filter (·.1 ≠ name)).lookup other = names.lookup other := by
      induction names with
      | nil => rfl
      | cons entry names ih =>
        by_cases he : entry.1 = name
        · have hkey : (other == entry.1) = false := by simpa [he] using h
          rw [List.filter_cons_of_neg (by simpa using he), ih, List.lookup_cons, hkey]
        · rw [List.filter_cons_of_pos (by simpa using he), List.lookup_cons, List.lookup_cons, ih]
    have hb : (other == name) = false := by simpa using h
    rw [assign, List.lookup_cons, hb, hfilter]

lemma lookup_foldl_assign (taken : List String) (names : List (String × ℕ)) (name : String) (place : ℕ) :
    (taken.foldl (fun names n => assign names n place) names).lookup name =
      if name ∈ taken then some place else names.lookup name := by
  induction taken generalizing names with
  | nil => simp
  | cons n taken ih =>
    rw [List.foldl_cons, ih, lookup_assign]
    by_cases hm : name ∈ taken
    · simp [hm]
    · by_cases he : name = n <;> simp [hm, he]

lemma lookup_of_mem (h : (names.map Prod.fst).Nodup) (hm : (name, place) ∈ names) :
    names.lookup name = some place := by
  induction names with
  | nil => exact absurd hm List.not_mem_nil
  | cons entry names ih =>
    rw [List.map_cons, List.nodup_cons] at h
    rcases List.mem_cons.mp hm with rfl | hm
    · exact List.lookup_cons_self
    · have hne : (name == entry.1) = false := by
        simpa using fun he : name = entry.1 => h.1 (he ▸ List.mem_map_of_mem hm)
      rw [List.lookup_cons, hne]
      exact ih h.2 hm

lemma nodup_assign (h : (names.map Prod.fst).Nodup) : ((assign names name place).map Prod.fst).Nodup := by
  rw [assign, List.map_cons, List.nodup_cons]
  refine ⟨by simp, h.sublist (List.filter_sublist.map Prod.fst)⟩

lemma nodup_foldl_assign (taken : List String) (h : (names.map Prod.fst).Nodup) :
    ((taken.foldl (fun names n => assign names n place) names).map Prod.fst).Nodup := by
  induction taken generalizing names with
  | nil => exact h
  | cons n taken ih => exact ih (nodup_assign h)

lemma records_empty : Records empty [] :=
  ⟨rfl, List.nodup_nil, by simp [empty, Holds]⟩

lemma Records.register (h : Records r history) (c : Registration) :
    Records (r.register c.tokenizer c.aliases) (history ++ [c]) where
  tokenizers := by rw [Registry.register, h.tokenizers, List.map_append]; rfl
  nodup := nodup_foldl_assign _ h.nodup
  lookup name place := by
    have hplace : r.tokenizers.length = history.length := by rw [h.tokenizers, List.length_map]
    rw [Registry.register, hplace, lookup_foldl_assign, holds_append]
    rw [← h.lookup, show namesOf c.tokenizer c.aliases = c.names from rfl]
    split
    · rw [Option.some_inj, eq_comm]
    · rfl

lemma Records.after (h : Records r history) (calls : List Registration) :
    Records (r.after calls) (history ++ calls) := by
  induction calls generalizing r history with
  | nil => simpa [Registry.after] using h
  | cons c calls ih => simpa [Registry.after] using ih (h.register c)

lemma records_empty_after (calls : List Registration) : Records (empty.after calls) calls :=
  records_empty.after calls

lemma records_builtin_after (calls : List Registration) : Records (builtin.after calls) (builtinHistory ++ calls) := by
  rw [builtin_eq_after]
  exact (records_empty_after builtinHistory).after calls

namespace Records

lemma get?_eq (h : Records r history) (name : String) :
    r.get? name = (history.reverse.find? fun c => normalName name ∈ c.names).map (·.tokenizer) := by
  rw [get?]
  cases hl : r.names.lookup (normalName name) with
  | some place =>
    have hholds := (h.lookup _ _).mp hl
    obtain ⟨c, hc, -⟩ := id hholds
    rw [Option.bind_some, find?_eq_some_iff.mpr ⟨place, hc, hholds⟩, h.tokenizers, List.getElem?_map, hc]
  | none =>
    have hnone : history.reverse.find? (fun c => normalName name ∈ c.names) = none := by
      refine List.find?_eq_none.mpr fun c hc hn => ?_
      obtain ⟨place, hplace⟩ := exists_holds (List.mem_reverse.mp hc) (of_decide_eq_true hn)
      rw [(h.lookup _ _).mpr hplace] at hl
      exact Option.some_ne_none _ hl
    rw [hnone]
    rfl

lemma isKnown_iff (h : Records r history) : r.isKnown place = true ↔ ∃ name, Holds history place name := by
  simp only [isKnown, List.any_eq_true, decide_eq_true_eq]
  constructor
  · rintro ⟨⟨name, _⟩, hm, rfl⟩
    exact ⟨name, (h.lookup _ _).mp (lookup_of_mem h.nodup hm)⟩
  · rintro ⟨name, hname⟩
    obtain ⟨l₁, l₂, he, -⟩ := List.lookup_eq_some_iff.mp ((h.lookup _ _).mpr hname)
    exact ⟨(name, place), by simp [he], rfl⟩

lemma mem_known_iff (h : Records r history) {entry : Tokenizer × ℕ} :
    entry ∈ r.tokenizers.zipIdx.filter (fun (_, place) => r.isKnown place) ↔
      (∃ c, history[entry.2]? = some c ∧ c.tokenizer = entry.1) ∧ ∃ name, Holds history entry.2 name := by
  rw [List.mem_filter, List.mem_zipIdx_iff_getElem?, h.tokenizers, List.getElem?_map, Option.map_eq_some_iff,
    h.isKnown_iff]

lemma mem_languages (h : Records r history) : language ∈ r.languages ↔ ∃ place, Lists history place language := by
  rw [languages, List.mem_eraseDups, List.mem_map]
  constructor
  · rintro ⟨entry, hm, rfl⟩
    obtain ⟨⟨c, hc, ht⟩, hname⟩ := h.mem_known_iff.mp hm
    exact ⟨entry.2, ⟨c, hc, congrArg _ ht⟩, hname⟩
  · rintro ⟨place, ⟨c, hc, rfl⟩, hname⟩
    exact ⟨(c.tokenizer, place), h.mem_known_iff.mpr ⟨⟨c, hc, rfl⟩, hname⟩, rfl⟩

lemma pairwise_languages (h : Records r history) : r.languages.Pairwise fun a b =>
    ∃ place, Lists history place a ∧ ∀ other, Lists history other b → place < other := by
  rw [languages]
  refine (pairwise_eraseDups _).imp fun {a b} hab => ?_
  obtain ⟨front, rest, hsplit, hfront, hne⟩ := hab
  obtain ⟨before, others, he, rfl, hothers⟩ := List.map_eq_append_iff.mp hsplit
  obtain ⟨entry, later, rfl, rfl, rfl⟩ := List.map_eq_cons_iff.mp hothers
  obtain ⟨⟨c, hc, ht⟩, hname⟩ := h.mem_known_iff.mp (he ▸ List.mem_append_right _ List.mem_cons_self)
  refine ⟨entry.2, ⟨⟨c, hc, congrArg _ ht⟩, hname⟩, ?_⟩
  rintro other ⟨⟨d, hd, rfl⟩, hname'⟩
  have hm : (d.tokenizer, other) ∈ r.tokenizers.zipIdx.filter fun (_, place) => r.isKnown place :=
    h.mem_known_iff.mpr ⟨⟨d, hd, rfl⟩, hname'⟩
  have hsorted : (r.tokenizers.zipIdx.filter fun (_, place) => r.isKnown place).Pairwise fun x y => x.2 < y.2 := by
    refine List.Pairwise.filter _ (List.pairwise_map.mp ?_)
    rw [List.zipIdx_map_snd]
    exact List.pairwise_lt_range'
  -- The places ascend, and the first one of `b` does not stand before that of `a`.
  rw [he] at hm hsorted
  have hlater := (List.pairwise_append.mp hsorted).2.1
  rcases List.mem_append.mp hm with hm | hm
  · exact absurd (List.mem_map_of_mem (f := (·.1.language)) hm) hfront
  · rcases List.mem_cons.mp hm with he' | hm
    · exact absurd (congrArg (·.1.language) he') hne
    · exact (List.pairwise_cons.mp hlater).1 _ hm

end Records

/-- A registry answers as a history of registrations says: a name, whatever blanks stand around it and whatever its
capitals, stands for the tokenizer of the last registration under it; the languages, each once, are those of the
registrations that hold a name, in the order of the first such registrations. -/
structure Recalls (r : Registry) (history : List Registration) : Prop where
  get?_eq : ∀ name, r.get? name = (history.reverse.find? fun c => normalName name ∈ c.names).map (·.tokenizer)
  mem_languages : ∀ language, language ∈ r.languages ↔ ∃ place, Lists history place language
  nodup_languages : r.languages.Nodup
  ordered_languages : r.languages.Pairwise fun a b =>
    ∃ place, Lists history place a ∧ ∀ other, Lists history other b → place < other

lemma Records.recalls (h : Records r history) : Recalls r history where
  get?_eq := h.get?_eq
  mem_languages _ := h.mem_languages
  nodup_languages := h.pairwise_languages.imp fun ⟨_, hplace, hlater⟩ he => (hlater _ (he ▸ hplace)).false
  ordered_languages := h.pairwise_languages

theorem recalls_after (calls : List Registration) :
    Recalls (empty.after calls) calls ∧ Recalls (builtin.after calls) (builtinHistory ++ calls) :=
  ⟨(records_empty_after calls).recalls, (records_builtin_after calls).recalls⟩

end Registry

end CodeClones
