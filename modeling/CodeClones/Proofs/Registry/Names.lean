import Mathlib
import CodeClones.Proofs.Registry.History

/-! The languages that a registry offers, in its list and for extensions, looked up again by their names. -/

namespace CodeClones

namespace Registration

def Claims (history : List Registration) (place : ℕ) (extension : String) : Prop :=
  ∃ c, history[place]? = some c ∧ c.tokenizer.claims extension = true ∧
    ∀ d ∈ history.drop (place + 1), ¬d.tokenizer.claims extension = true

def HoldsOwn (history : List Registration) (place : ℕ) (language : String) : Prop :=
  (∃ c, history[place]? = some c ∧ c.tokenizer.language = language) ∧ Holds history place language.toLower

def IsTrimmed (c : Registration) : Prop :=
  ∀ name ∈ c.tokenizer.language :: c.aliases, Text.trimBlank name.toList = name.toList

instance (c : Registration) : Decidable c.IsTrimmed :=
  inferInstanceAs (Decidable (∀ name ∈ c.tokenizer.language :: c.aliases, Text.trimBlank name.toList = name.toList))

end Registration

namespace Registry

open Registration

variable {r : Registry} {history : List Registration} {c : Registration} {t : Tokenizer} {language extension : String}
  {place other : ℕ}

lemma normalName_of_isTrimmed (h : c.IsTrimmed) : normalName c.tokenizer.language = c.tokenizer.language.toLower := by
  rw [normalName, h _ List.mem_cons_self, String.ofList_toList]

lemma isTrimmed_builtinHistory : ∀ c ∈ builtinHistory, c.IsTrimmed := by decide

lemma Records.holds_unique {name : String} (h : Records r history) (hp : Holds history place name)
    (ho : Holds history other name) : place = other :=
  Option.some.inj (((h.lookup _ _).mpr hp).symm.trans ((h.lookup _ _).mpr ho))

lemma Records.exists_holder (h : Records r history) (ht : ∀ c ∈ history, c.IsTrimmed) (hc : history[place]? = some c) :
    ∃ other d, history[other]? = some d ∧ Holds history other c.tokenizer.language.toLower ∧
      r.get? c.tokenizer.language = some d.tokenizer := by
  have hm := List.mem_of_getElem? hc
  obtain ⟨other, hother⟩ := exists_holds hm (List.mem_map_of_mem List.mem_cons_self)
  obtain ⟨d, hd, -⟩ := id hother
  refine ⟨other, d, hd, hother, ?_⟩
  rw [h.get?_eq, normalName_of_isTrimmed (ht c hm), find?_eq_some_iff.mpr ⟨other, hd, hother⟩, Option.map_some]

lemma Records.languageFor?_eq_some (h : Records r history) (hl : r.languageFor? extension = some language) :
    ∃ place c, history[place]? = some c ∧ c.tokenizer.language = language ∧ Claims history place extension := by
  rw [languageFor?, h.tokenizers, ← List.map_reverse, Option.map_eq_some_iff] at hl
  obtain ⟨t, hfind, rfl⟩ := hl
  rw [List.find?_map, Option.map_eq_some_iff] at hfind
  obtain ⟨c, hfind, rfl⟩ := hfind
  obtain ⟨place, hc, hclaims, hlater⟩ := find?_reverse_eq_some_iff.mp hfind
  exact ⟨place, c, hc, rfl, c, hc, hclaims, hlater⟩

/-- The languages that a registry offers, looked up again: a tokenizer is always found. For an extension it is one
that claims the extension just if the last registration for it still holds its language's name. For a language of
the list it is one of the language just if a registration of it still holds the language's name. -/
structure Offers (r : Registry) (history : List Registration) : Prop where
  extension : ∀ extension language, r.languageFor? extension = some language →
    ∃ t place, r.get? language = some t ∧ Claims history place extension ∧
      (t.claims extension = true ↔ HoldsOwn history place language)
  listed : ∀ language ∈ r.languages, ∃ t, r.get? language = some t ∧
    (t.language = language ↔ ∃ place, HoldsOwn history place language)

lemma Records.offers (h : Records r history) (ht : ∀ c ∈ history, c.IsTrimmed) : Offers r history where
  extension extension language hl := by
    obtain ⟨place, c, hc, rfl, hclaims⟩ := h.languageFor?_eq_some hl
    obtain ⟨other, d, hd, hholds, hget⟩ := h.exists_holder ht hc
    refine ⟨d.tokenizer, place, hget, hclaims, fun hclaim => ?_, fun hown => ?_⟩
    · obtain ⟨-, -, -, hlater⟩ := hclaims
      obtain ⟨-, -, -, hlater'⟩ := id hholds
      have hle : other ≤ place := le_of_forall_drop hlater hd hclaim
      have hge : place ≤ other := le_of_forall_drop hlater' hc (List.mem_map_of_mem List.mem_cons_self)
      obtain rfl := hle.antisymm hge
      exact ⟨⟨c, hc, rfl⟩, hholds⟩
    · obtain rfl := h.holds_unique hholds hown.2
      obtain ⟨d', hd', hclaim, -⟩ := hclaims
      obtain rfl : d = d' := Option.some.inj (hd.symm.trans hd')
      exact hclaim
  listed language hl := by
    obtain ⟨place, ⟨c, hc, rfl⟩, -⟩ := h.mem_languages.mp hl
    obtain ⟨other, d, hd, hholds, hget⟩ := h.exists_holder ht hc
    refine ⟨d.tokenizer, hget, fun he => ⟨other, ⟨d, hd, he⟩, hholds⟩, ?_⟩
    rintro ⟨place', ⟨d', hd', he⟩, hown⟩
    obtain rfl := h.holds_unique hholds hown
    obtain rfl : d = d' := Option.some.inj (hd.symm.trans hd')
    exact he

theorem offers_after (calls : List Registration) (ht : ∀ c ∈ calls, c.IsTrimmed) :
    Offers (empty.after calls) calls ∧ Offers (builtin.after calls) (builtinHistory ++ calls) := by
  refine ⟨(records_empty_after calls).offers ht, (records_builtin_after calls).offers fun c hc => ?_⟩
  exact (List.mem_append.mp hc).elim (isTrimmed_builtinHistory c) (ht c)

theorem offers_after_words :
    (∀ c ∈ [(⟨.words "Basic" ["bas", "BI"], ["b"]⟩ : Registration)], c.IsTrimmed) ∧
    (empty.after [⟨.words "Basic" ["bas", "BI"], ["b"]⟩]).languageFor? "bi" = some "Basic" ∧
    Offers (empty.after [⟨.words "Basic" ["bas", "BI"], ["b"]⟩]) [⟨.words "Basic" ["bas", "BI"], ["b"]⟩] ∧
    Offers (builtin.after [⟨.words "Basic" ["bas", "BI"], ["b"]⟩])
      (builtinHistory ++ [⟨.words "Basic" ["bas", "BI"], ["b"]⟩]) := by
  have ht : ∀ c ∈ [(⟨.words "Basic" ["bas", "BI"], ["b"]⟩ : Registration)], c.IsTrimmed := by decide
  refine ⟨ht, ?_, offers_after _ ht⟩
  -- Capitals are compared as characters: evaluating the texts themselves takes long.
  simp [languageFor?, after, register, empty, Tokenizer.claims, Tokenizer.words, String.toLower, ← String.toList_inj]

/-- A tokenizer whose language's name was taken over is still offered under that name, in the list and for its
extensions. -/
theorem offers_taken_name :
    (∀ c ∈ [(⟨.words "x" ["e"], ["y"]⟩ : Registration), ⟨.words "z" ["f"], ["x"]⟩], c.IsTrimmed) ∧
    (empty.after [⟨.words "x" ["e"], ["y"]⟩, ⟨.words "z" ["f"], ["x"]⟩]).languageFor? "e" = some "x" ∧
    (empty.after [⟨.words "x" ["e"], ["y"]⟩, ⟨.words "z" ["f"], ["x"]⟩]).languages = ["x", "z"] ∧
    ∃ t, (empty.after [⟨.words "x" ["e"], ["y"]⟩, ⟨.words "z" ["f"], ["x"]⟩]).get? "x" = some t ∧
      t.claims "e" = false ∧ t.language = "z" := by
  exact ⟨by decide, by cbv, by cbv, .words "z" ["f"], by cbv, by cbv, by cbv⟩

end Registry

end CodeClones
