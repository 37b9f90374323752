import CodeClones.Proofs.Corpus.Outcome

/-! Files that differ in nothing that is compared make the same corpus but for the places of their tokens. -/

namespace CodeClones

open Corpus Success

def Position.compare (p q : Position) : Ordering :=
  (Ord.compare p.line q.line).then (Ord.compare p.column q.column)

lemma Position.Before.compare {p q : Position} (h : p.Before q) : p.compare q = .lt ∧ q.compare p = .gt := by
  rcases h with h | ⟨h, h'⟩
  · simp [Position.compare, Nat.compare_eq_lt.mpr h, Nat.compare_eq_gt.mpr h]
  · simp [Position.compare, h, Nat.compare_eq_lt.mpr h', Nat.compare_eq_gt.mpr h']

/-- Two files that have the same keys, one behind the other. -/
structure TokenizedFile.Alike (f g : TokenizedFile) : Prop where
  inputIndex : f.inputIndex = g.inputIndex
  keys : f.tokens.map (·.key) = g.tokens.map (·.key)

namespace TokenizedFile.Alike

variable {f g : TokenizedFile}

lemma refl (f : TokenizedFile) : f.Alike f := ⟨rfl, rfl⟩

lemma symm (h : f.Alike g) : g.Alike f := ⟨h.inputIndex.symm, h.keys.symm⟩

lemma length_eq (h : f.Alike g) : f.tokens.length = g.tokens.length := by
  simpa using congrArg List.length h.keys

end TokenizedFile.Alike

def TokenizedFile.SameOrder (f g : TokenizedFile) : Prop :=
  ∀ (i j : ℕ) (p q p' q' : Position), f.tokens[i]?.map (·.first) = some p → f.tokens[j]?.map (·.first) = some q →
    g.tokens[i]?.map (·.first) = some p' → g.tokens[j]?.map (·.first) = some q' → p.compare q = p'.compare q'

namespace TokenizedFile.SameOrder

variable {f g : TokenizedFile}

lemma refl (f : TokenizedFile) : f.SameOrder f := by
  intro i j p q p' q' hp hq hp' hq'
  rw [Option.some.inj (hp.symm.trans hp'), Option.some.inj (hq.symm.trans hq')]

lemma of_increasing (hf : f.tokens.Pairwise fun t u => t.first.Before u.first)
    (hg : g.tokens.Pairwise fun t u => t.first.Before u.first) : f.SameOrder g := by
  have hnumbers : ∀ {tokens : List Token}, tokens.Pairwise (fun t u => t.first.Before u.first) →
      ∀ {i j : ℕ} {p q : Position}, tokens[i]?.map (·.first) = some p → tokens[j]?.map (·.first) = some q →
        p.compare q = Ord.compare i j := by
    intro tokens h i j p q hp hq
    obtain ⟨t, ht, rfl⟩ := Option.map_eq_some_iff.mp hp
    obtain ⟨u, hu, rfl⟩ := Option.map_eq_some_iff.mp hq
    obtain ⟨hi, rfl⟩ := List.getElem?_eq_some_iff.mp ht
    obtain ⟨hj, rfl⟩ := List.getElem?_eq_some_iff.mp hu
    rcases Nat.lt_trichotomy i j with hlt | rfl | hlt
    · rw [(List.pairwise_iff_getElem.mp h i j hi hj hlt).compare.1, Nat.compare_eq_lt.mpr hlt]
    · simp [Position.compare]
    · rw [(List.pairwise_iff_getElem.mp h j i hj hi hlt).compare.2, Nat.compare_eq_gt.mpr hlt]
  intro i j p q p' q' hp hq hp' hq'
  rw [hnumbers hf hp hq, hnumbers hg hp' hq']

end TokenizedFile.SameOrder

namespace Corpus

variable {r : Registry} {o : Options} {files files' : List SourceFile} {given given' : List TokenizedFile}
  {f : TokenizedFile} {length p k i : ℕ}

lemma startOf_congr {R : TokenizedFile → TokenizedFile → Prop} (hR : ∀ f g, R f g → f.tokens.length = g.tokens.length)
    (h : List.Forall₂ R given given') (k : ℕ) : startOf given k = startOf given' k := by
  rw [startOf, startOf, map_eq_of_forall₂ (List.forall₂_take k h) fun f g hfg => by rw [hR f g hfg]]

lemma keys_congr (h : List.Forall₂ TokenizedFile.Alike given given') :
    (ofFiles given).keys = (ofFiles given').keys := by
  have hn : ∀ n, (given.zipIdx n).flatMap (fun x => numbersOf (numberingOf given') x.1 x.2) =
      (given'.zipIdx n).flatMap fun x => numbersOf (numberingOf given') x.1 x.2 := by
    generalize numberingOf given' = numbering
    induction h with
    | nil => exact fun n => rfl
    | @cons f g given given' hfg _ ih =>
      intro n
      have hnumbers : ∀ f : TokenizedFile, f.tokens.map (fun t => numbering.numberOf t.key) =
          (f.tokens.map (·.key)).map numbering.numberOf := fun f => by rw [List.map_map]; rfl
      rw [List.zipIdx_cons, List.zipIdx_cons, List.flatMap_cons, List.flatMap_cons, ih, numbersOf, numbersOf, hnumbers,
        hnumbers, hfg.keys]
  have hkeys : ∀ files, (ofFiles files).keys =
      (files.zipIdx.flatMap fun x => numbersOf (numberingOf files) x.1 x.2).toArray := fun _ => rfl
  have hnumbering : numberingOf given = numberingOf given' := by
    rw [numberingOf_eq, numberingOf_eq, map_eq_of_forall₂ h fun f g hfg => hfg.keys]
  rw [hkeys, hkeys, hnumbering, hn]

lemma LiesIn.of_alike (h : List.Forall₂ TokenizedFile.Alike given given') (hp : LiesIn given length p k i f) :
    ∃ g, LiesIn given' length p k i g := by
  obtain ⟨g, hg, hfg⟩ := exists_getElem?_of_forall₂ h hp.file
  exact ⟨g, hg, startOf_congr (fun _ _ hfg => hfg.length_eq) h k ▸ hp.position, hfg.length_eq ▸ hp.room⟩

/-! ### Files with the same languages -/

structure AreAlike (r : Registry) (o : Options) (files files' : List SourceFile) : Prop where
  languages : files.map (·.languageOr o.language) = files'.map (·.languageOr o.language)
  alike : List.Forall₂ TokenizedFile.Alike (gathered r o files) (gathered r o files')

lemma AreAlike.symm (h : AreAlike r o files files') : AreAlike r o files' files :=
  ⟨h.languages.symm, h.alike.flip.imp fun _ _ h => h.symm⟩

lemma AreAlike.exists_build {cancelled : Bool} (h : AreAlike r o files files')
    (hb : ∃ built, build r o cancelled files = .ok built) : ∃ built, build r o cancelled files' = .ok built := by
  obtain ⟨hknown, hc, hfail, hlimit, hroom⟩ := exists_build_iff.mp hb
  have hlength : files.length = files'.length := by simpa using congrArg List.length h.languages
  have hsum := map_eq_of_forall₂ h.alike fun f g hfg => hfg.length_eq
  refine exists_build_iff.mpr ⟨fun file hf => ?_, fun hcancel => ?_, ?_, ?_, ?_⟩
  · obtain ⟨file', hf', he⟩ := List.mem_map.mp (h.languages ▸ List.mem_map_of_mem hf :
      file.languageOr o.language ∈ files.map (·.languageOr o.language))
    rw [HasTokenizer, ← he]
    exact hknown file' hf'
  · rw [← List.length_eq_zero_iff, ← hlength, hc hcancel, List.length_nil]
  · rwa [← h.alike.length_eq, ← hlength]
  · rwa [← hsum]
  · rwa [← hsum, ← h.alike.length_eq]

lemma AreAlike.keys_eq (h : AreAlike r o files files') (cancelled : Bool) :
    (build r o cancelled files).toOption.map (·.1.keys) = (build r o cancelled files').toOption.map (·.1.keys) := by
  refine map_toOption_eq (fun built hb => ?_) fun built hb => h.symm.exists_build ⟨built, hb⟩
  obtain ⟨built', hb'⟩ := h.exists_build ⟨built, hb⟩
  exact ⟨built', hb', by rw [build_eq_ok hb, build_eq_ok hb', keys_congr h.alike]⟩

lemma forall₂_gathered_set {R : TokenizedFile → TokenizedFile → Prop} {file file' : SourceFile} {t : Tokenizer}
    (hR : ∀ f, R f f) (hi : files[i]? = some file) (ht : r.get? (file.languageOr o.language) = some t)
    (ht' : r.get? (file'.languageOr o.language) = some t)
    (h : Option.Rel R (accepted? o ((file, t), i)) (accepted? o ((file', t), i))) :
    List.Forall₂ R (gathered r o files) (gathered r o (files.set i file')) := by
  obtain ⟨pre, post, rfl, rfl⟩ : ∃ pre post, files = pre ++ file :: post ∧ i = pre.length := by
    obtain ⟨hlt, rfl⟩ := List.getElem?_eq_some_iff.mp hi
    exact ⟨files.take i, files.drop (i + 1), by simp, (List.length_take_of_le hlt.le).symm⟩
  have hset : (pre ++ file :: post).set pre.length file' = pre ++ file' :: post := by simp
  have hsame : ∀ s : List TokenizedFile, List.Forall₂ R s s := fun s => List.forall₂_same.mpr fun f _ => hR f
  rw [hset, gathered, gathered, List.zipIdx_append, List.zipIdx_append, List.filterMap_append, List.filterMap_append]
  refine List.rel_append (hsame _) ?_
  rw [List.zipIdx_cons, List.zipIdx_cons, List.filterMap_cons, List.filterMap_cons]
  simp only [ht, ht', Option.bind_some, Nat.zero_add]
  generalize accepted? o ((file, t), pre.length) = x, accepted? o ((file', t), pre.length) = y at h
  cases h with
  | some h => exact .cons h (hsame _)
  | none => exact hsame _

end Corpus

end CodeClones
