import CodeClones.Proofs.Detection.Accesses

/-! No operation of a detection is used for arguments that it is not meant for, but one: when files without tokens
have taken all positions, it cannot be told how many tokens there may have been before the next file. -/

namespace CodeClones

open Corpus Duplication Success

variable {m : Type → Type} [Monad m] [LawfulMonad m] [Access m] {r : Registry} {d : Detector} {o : Options}
  {files : List SourceFile} {cancelled : Bool} {built : Corpus × List TokenizationError} {k : ℕ}

namespace Corpus

/-- The walk through the files gets to one that needs a position when there is none left. -/
structure RunsOutOfRoom (r : Registry) (o : Options) (cancelled : Bool) (files : List SourceFile) : Prop where
  known : ∀ file ∈ files, HasTokenizer r o file
  going : cancelled = true → files = []
  reached : ∃ k, NoRoomAt r o files k ∧ ∀ i < k, ∀ e, ¬ StopsAt r o files i e

lemma NoRoomAt.stopsAt (h : NoRoomAt r o files k) : ∃ e, StopsAt r o files k e := by
  obtain ⟨tokens, ht⟩ := Option.isSome_iff_exists.mp h.accepted
  simp only [tokensOf?, Option.bind_eq_bind, Option.bind_eq_some_iff] at ht
  obtain ⟨file, hf, t, ht, hc⟩ := ht
  have ha : accepted? o ((file, t), k) = some ⟨file.path, t.language, k, file.source, tokens⟩ := by
    simp [accepted?, hc]
  have htaken := h.taken
  exact ⟨_, .tooManyPositions hf ht ha h.limit (by omega)⟩

lemma runsOutOfRoom_iff {e : RunError} (hall : ∀ file ∈ files, HasTokenizer r o file)
    (hc : cancelled = true → files = []) (hs : StopsAt r o files k e) (hb : ∀ i < k, ∀ e, ¬ StopsAt r o files i e) :
    RunsOutOfRoom r o cancelled files ↔ NoRoomAt r o files k := by
  constructor
  · intro h
    obtain ⟨l, hl, hbefore⟩ := h.reached
    obtain ⟨e', hs'⟩ := hl.stopsAt
    obtain rfl : k = l := le_antisymm (not_lt.mp fun hlt => hb l hlt e' hs') (not_lt.mp fun hlt => hbefore k hlt e hs)
    exact hl
  · exact fun h => ⟨hall, hc, k, h, hb⟩

/-- There are such runs: files without tokens need a position each. -/
lemma runsOutOfRoom_of_empty (hc : cancelled = true → files = []) (hlt : maxPositions < files.length)
    (h : ∀ (k : ℕ) (file : SourceFile), files[k]? = some file → ∃ t, r.get? (file.languageOr o.language) = some t ∧
      (t.tokenize file.source k o.normalization).complete = .ok []) : RunsOutOfRoom r o cancelled files := by
  have hempty : ∀ k ≤ files.length, (gathered r o (files.take k)).length = k ∧ totalOf r o files k = 0 := by
    intro k hk
    induction k with
    | zero => simp [gathered, totalOf]
    | succ k ih =>
      have hf := List.getElem?_eq_getElem (by omega : k < files.length)
      obtain ⟨t, ht, hcomplete⟩ := h k _ hf
      obtain ⟨hlength, htotal⟩ := ih (by omega)
      refine ⟨?_, by rw [totalOf_succ_of_ok hf ht hcomplete, htotal, List.length_nil]⟩
      rw [gathered_take_succ hf ht, List.length_append, hlength]
      simp [accepted?, hcomplete, Except.toOption]
  refine ⟨fun file hm => ?_, hc, maxPositions, ⟨(hempty _ hlt.le).1, ?_, fun limit _ => ?_⟩, fun i hi e hs => ?_⟩
  · obtain ⟨k, hk⟩ := List.mem_iff_getElem?.mp hm
    obtain ⟨t, ht, -⟩ := h k file hk
    exact Option.isSome_iff_exists.mpr ⟨t, ht⟩
  · have hf := List.getElem?_eq_getElem hlt
    obtain ⟨t, ht, hcomplete⟩ := h _ _ hf
    simp [tokensOf?, hf, ht, hcomplete, Except.toOption]
  · rw [(hempty _ hlt).2]
    exact Nat.zero_le limit
  · have htotal := (hempty (i + 1) (by omega)).2
    have hlength := (hempty i (by omega)).1
    cases hs with
    | @malformed file t cause hf ht he hfail =>
      obtain ⟨u, hu, hcomplete⟩ := h i file hf
      obtain rfl := Option.some.inj (ht.symm.trans hu)
      exact absurd he (by simp [failure?, hcomplete])
    | tooManyTokens => omega
    | tooManyPositions => omega

open Classical in
lemma buildM_eq (r : Registry) (o : Options) (cancelled : Bool) (files : List SourceFile) :
    (buildM r o cancelled files : ExceptT RunError m _) = (do
      require (¬ RunsOutOfRoom r o cancelled files) .limit
      monadLift (build r o cancelled files)) := by
  cases course r o cancelled files with
  | unknown hf hn hb =>
    have hroom : ¬ RunsOutOfRoom r o cancelled files := fun h => hn (h.known _ (List.mem_of_getElem? hf))
    rw [buildM_of_unknown hf hn hb, require_eq hroom, pure_bind, build_of_unknown hf hn hb]
    rfl
  | ended hall hc hne =>
    have hroom : ¬ RunsOutOfRoom r o cancelled files := fun h => hne (h.going hc)
    rw [buildM_of_cancelled hall hc hne, require_eq hroom, pure_bind, build_of_cancelled hall hc hne]
    rfl
  | stopped hall hc hs hb =>
    rw [buildM_of_stopsAt hall hc hs hb, runsOutOfRoom_iff hall hc hs hb, build_of_stopsAt hall hc hs hb]
    rfl
  | finished hall hc hn =>
    have hroom : ¬ RunsOutOfRoom r o cancelled files := fun h => by
      obtain ⟨k, hk, -⟩ := h.reached
      obtain ⟨e, hs⟩ := hk.stopsAt
      exact hn k e hs
    rw [buildM_of_not_stopsAt hall hc hn, require_eq hroom, pure_bind, build_of_not_stopsAt hall hc hn]
    rfl

end Corpus

namespace Detector

def RunsOutOfRoom (d : Detector) (files : List SourceFile) (o : Options) : Prop :=
  o.validate d.registry = .ok () ∧ Corpus.RunsOutOfRoom d.registry o d.cancelled files

end Detector

end CodeClones
