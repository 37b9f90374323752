import CodeClones.Proofs.Access
import CodeClones.Proofs.Corpus.Keys

/-! A corpus is assembled file by file. Its sentinels are written once all keys have their numbers. -/

namespace CodeClones.Corpus

variable {given : List TokenizedFile} {warnings : List TokenizationError} {numbering : Numbering} {found : List Key}

namespace Numbering

lemma number_fst (s : Numbering) (k : Key) : (s.number k).1 = (s.add k).numberOf k := by
  cases h : s.number? k with
  | none => rw [(number_of_none h).1, numberOf, number?_add_of_none h, if_pos rfl, Option.getD_some]
  | some n =>
    rw [add, number_of_some h]
    simp [numberOf, h]

lemma Lists.foldl_add (h : Lists numbering found) (keys : List Key) :
    Lists (keys.foldl Numbering.add numbering) (found ++ keys) := by
  induction keys generalizing numbering found with
  | nil => rwa [List.append_nil]
  | cons k keys ih =>
    rw [List.foldl_cons, List.append_cons]
    exact ih (h.add k)

end Numbering

namespace Assembly

lemma foldl_addKey {a : Assembly} (h : a.numbering.Lists found) (keys : List Key) :
    keys.foldl addKey a = { a with
      numbering := keys.foldl Numbering.add a.numbering
      keys := a.keys ++ (keys.map (keys.foldl Numbering.add a.numbering).numberOf).toArray } := by
  induction keys using List.reverseRecOn with
  | nil => simp
  | append_singleton keys k ih =>
    have hl := h.foldl_add keys
    rw [List.foldl_append, ih]
    simp only [List.foldl_cons, List.foldl_nil, addKey, List.foldl_append, Numbering.number_fst]
    have hold : keys.map ((keys.foldl Numbering.add a.numbering).add k).numberOf =
        keys.map (keys.foldl Numbering.add a.numbering).numberOf :=
      List.map_congr_left fun k' hk => hl.numberOf_eq (hl.add k) (List.mem_append_right _ hk)
    rw [Numbering.add] at hold ⊢
    rw [List.map_append, hold]
    simp

end Assembly

/-- What is at the positions of a file before its sentinel is written. -/
def unfinished (numbering : Numbering) (f : TokenizedFile) : List ℕ :=
  f.tokens.map (fun t => numbering.numberOf t.key) ++ [0]

def Assembly.of (given : List TokenizedFile) (warnings : List TokenizationError) : Assembly where
  numbering := numberingOf given
  files := (placeFiles 0 given).toArray
  tokens := (given.flatMap (·.tokens)).toArray
  keys := (given.flatMap (unfinished (numberingOf given))).toArray
  warnings := warnings.toArray

lemma length_flatMap_unfinished (numbering : Numbering) (given : List TokenizedFile) :
    (given.flatMap (unfinished numbering)).length = startOf given given.length := by
  rw [startOf, List.take_length, List.length_flatMap]
  simp [unfinished]

lemma placeFiles_append (n : ℕ) (given : List TokenizedFile) (f : TokenizedFile) :
    placeFiles n (given ++ [f]) = placeFiles n given ++
      [⟨f.path, f.language, f.inputIndex, f.source, n + startOf given given.length,
        n + startOf given given.length + f.tokens.length⟩] := by
  induction given generalizing n with
  | nil => simp [placeFiles]
  | cons g given ih =>
    have hs : startOf (g :: given) (given.length + 1) = g.tokens.length + 1 + startOf given given.length := by
      simp [startOf]
    simp only [List.cons_append, placeFiles, ih, List.length_cons, hs, Nat.add_assoc]

lemma numberingOf_append (given : List TokenizedFile) (f : TokenizedFile) :
    numberingOf (given ++ [f]) = (f.tokens.map (·.key)).foldl Numbering.add (numberingOf given) := by
  rw [numberingOf, numberingOf, ← Numbering.ofKeys_append]
  simp

lemma flatMap_unfinished_append (given : List TokenizedFile) (f : TokenizedFile) :
    (given ++ [f]).flatMap (unfinished (numberingOf (given ++ [f]))) =
      given.flatMap (unfinished (numberingOf given)) ++ unfinished (numberingOf (given ++ [f])) f := by
  have hl' := lists_numberingOf (given ++ [f])
  rw [List.flatMap_append, List.map_append] at hl'
  have hold : ∀ g ∈ given, unfinished (numberingOf (given ++ [f])) g = unfinished (numberingOf given) g := by
    intro g hg
    rw [unfinished, unfinished]
    congr 1
    apply List.map_congr_left
    intro t ht
    exact (lists_numberingOf given).numberOf_eq hl' (List.mem_map_of_mem (List.mem_flatMap.mpr ⟨g, hg, ht⟩))
  rw [List.flatMap_append, List.flatMap_congr hold]
  simp

lemma Assembly.addFile_of (file : SourceFile) (language : String) (index : ℕ) (tokens : List Token) :
    (of given warnings).addFile file language index tokens =
      of (given ++ [⟨file.path, language, index, file.source, tokens⟩]) warnings := by
  have hstart : (of given warnings).keys.size = startOf given given.length := by
    rw [of, List.size_toArray, length_flatMap_unfinished]
  have hl : (of given warnings).numbering.Lists ((given.flatMap (·.tokens)).map (·.key)) := lists_numberingOf given
  let f : TokenizedFile := ⟨file.path, language, index, file.source, tokens⟩
  have hn : (tokens.map (·.key)).foldl Numbering.add (of given warnings).numbering = numberingOf (given ++ [f]) :=
    (numberingOf_append given f).symm
  rw [addFile, foldl_addKey hl, hstart, hn, of.eq_def (given ++ [f]), placeFiles_append, flatMap_unfinished_append]
  simp only [Array.size_append, hstart]
  simp [of, f, unfinished]

/-! ### Sentinels -/

variable {m : Type → Type} [Monad m] [LawfulMonad m] [Access m]

lemma writeSentinelM_eq (f : TokenizedFile) (before rest : List ℕ) (i : ℕ) :
    (writeSentinelM numbering.next (before ++ (unfinished numbering f ++ rest)).toArray
      (⟨f.path, f.language, f.inputIndex, f.source, before.length, before.length + f.tokens.length⟩, i) : m _) =
    pure (before ++ numbersOf numbering f i ++ rest).toArray := by
  let numbers := f.tokens.map fun t => numbering.numberOf t.key
  have hl : before.length + f.tokens.length = (before ++ numbers).length := by simp [numbers]
  have hd : before ++ (unfinished numbering f ++ rest) = before ++ numbers ++ 0 :: rest := by
    simp [unfinished, numbers]
  rw [hd, writeSentinelM, write_eq (by simp [numbers]), List.setIfInBounds_toArray, hl,
    List.set_append_right _ _ (Nat.le_refl _), Nat.sub_self, List.set_cons_zero]
  simp [numbersOf, numbers]

lemma foldlM_writeSentinelM (before : List ℕ) (i : ℕ) (files : List TokenizedFile) :
    (((placeFiles before.length files).zipIdx i).foldlM (writeSentinelM numbering.next)
      (before ++ files.flatMap (unfinished numbering)).toArray : m _) =
    pure (before ++ (files.zipIdx i).flatMap fun x => numbersOf numbering x.1 x.2).toArray := by
  induction files generalizing before i with
  | nil => simp [placeFiles]
  | cons f files ih =>
    have hd : (before ++ numbersOf numbering f i).length = before.length + f.tokens.length + 1 := by
      simp [Nat.add_assoc]
    have hih := ih (before ++ numbersOf numbering f i) (i + 1)
    rw [hd] at hih
    simp only [placeFiles, List.zipIdx_cons, List.foldlM_cons, List.flatMap_cons]
    rw [writeSentinelM_eq, pure_bind, hih, List.append_assoc]

lemma Assembly.foldlM_writeSentinelM_of (given : List TokenizedFile) (warnings : List TokenizationError) :
    ((of given warnings).files.toList.zipIdx.foldlM (writeSentinelM (of given warnings).numbering.next)
      (of given warnings).keys : m _) = pure (ofFiles given).keys := by
  have h : ((placeFiles [].length given).zipIdx.foldlM (writeSentinelM (numberingOf given).next)
      ([] ++ given.flatMap (unfinished (numberingOf given))).toArray : m _) = _ := foldlM_writeSentinelM [] 0 given
  rw [List.nil_append, List.nil_append] at h
  exact h

end CodeClones.Corpus
