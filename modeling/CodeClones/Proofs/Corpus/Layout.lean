import Mathlib.Algebra.Ring.Nat
import CodeClones.Proofs.Corpus.Numbering
import CodeClones.Proofs.Lists

/-! Where the keys, sentinels and tokens of each file are in a corpus, and which keys are equal. -/

namespace CodeClones

structure TokenizedFile where
  path : String
  language : String
  inputIndex : ℕ
  source : String
  tokens : List Token

namespace Corpus

def numberingOf (files : List TokenizedFile) : Numbering := .ofKeys ((files.flatMap (·.tokens)).map (·.key))

/-- The files at consecutive positions from `start` on, each with room for a sentinel behind it. -/
def placeFiles (start : ℕ) : List TokenizedFile → List CorpusFile
  | [] => []
  | f :: following =>
      let stop := start + f.tokens.length
      ⟨f.path, f.language, f.inputIndex, f.source, start, stop⟩ :: placeFiles (stop + 1) following

def numbersOf (numbering : Numbering) (f : TokenizedFile) (k : ℕ) : List ℕ :=
  f.tokens.map (fun t => numbering.numberOf t.key) ++ [numbering.next + k]

def numberKeys (numbering : Numbering) (files : List TokenizedFile) : List ℕ :=
  files.zipIdx.flatMap fun (f, k) => numbersOf numbering f k

def ofFiles (files : List TokenizedFile) : Corpus where
  files := (placeFiles 0 files).toArray
  tokens := (files.flatMap (·.tokens)).toArray
  keys := (numberKeys (numberingOf files) files).toArray
  distinctKeys := (numberingOf files).next

variable {files : List TokenizedFile} {f g : TokenizedFile} {k l i j n p q : ℕ}

def startOf (files : List TokenizedFile) (k : ℕ) : ℕ :=
  ((files.take k).map fun f => f.tokens.length + 1).sum

@[simp] lemma startOf_zero (files : List TokenizedFile) : startOf files 0 = 0 := by
  simp [startOf]

lemma startOf_succ (hf : files[k]? = some f) :
    startOf files (k + 1) = startOf files k + f.tokens.length + 1 := by
  simp [startOf, List.take_add_one, hf, Nat.add_assoc]

lemma startOf_succ_of_none (hf : files[k]? = none) : startOf files (k + 1) = startOf files k := by
  simp [startOf, List.take_add_one, hf]

lemma startOf_mono (h : k ≤ l) : startOf files k ≤ startOf files l := by
  induction h with
  | refl => exact Nat.le_refl _
  | @step l h ih =>
    cases hf : files[l]? with
    | none => rwa [startOf_succ_of_none hf]
    | some f =>
      rw [startOf_succ hf]
      omega

lemma startOf_add_lt (hf : files[k]? = some f) (h : k < l) :
    startOf files k + f.tokens.length < startOf files l := by
  have hs := startOf_succ hf
  have hm : startOf files (k + 1) ≤ startOf files l := startOf_mono h
  omega

lemma place_unique (hf : files[k]? = some f) (hg : files[l]? = some g) (hi : i ≤ f.tokens.length)
    (hj : j ≤ g.tokens.length) (he : startOf files k + i = startOf files l + j) : k = l ∧ i = j := by
  rcases Nat.lt_trichotomy k l with hlt | rfl | hlt
  · have := startOf_add_lt hf hlt
    omega
  · exact ⟨rfl, by omega⟩
  · have := startOf_add_lt hg hlt
    omega

lemma exists_place (h : p < startOf files n) :
    ∃ k f i, files[k]? = some f ∧ i ≤ f.tokens.length ∧ p = startOf files k + i := by
  induction n with
  | zero => simp at h
  | succ n ih =>
    rcases Nat.lt_or_ge p (startOf files n) with hlt | hge
    · exact ih hlt
    · cases hf : files[n]? with
      | none =>
        rw [startOf_succ_of_none hf] at h
        omega
      | some f =>
        rw [startOf_succ hf] at h
        exact ⟨n, f, p - startOf files n, hf, by omega, by omega⟩

lemma getElem?_placeFiles (n k : ℕ) (files : List TokenizedFile) :
    (placeFiles n files)[k]? = files[k]?.map fun f =>
      ⟨f.path, f.language, f.inputIndex, f.source, n + startOf files k,
        n + startOf files k + f.tokens.length⟩ := by
  induction files generalizing n k with
  | nil => simp [placeFiles]
  | cons f files ih =>
    cases k with
    | zero => simp [placeFiles]
    | succ k =>
      have hs : startOf (f :: files) (k + 1) = f.tokens.length + 1 + startOf files k := by
        simp [startOf]
      simp only [placeFiles, List.getElem?_cons_succ, ih, hs, Nat.add_assoc]

@[simp] lemma length_numbersOf (numbering : Numbering) (f : TokenizedFile) (k : ℕ) :
    (numbersOf numbering f k).length = f.tokens.length + 1 := by
  simp [numbersOf]

lemma length_numberKeys (numbering : Numbering) (files : List TokenizedFile) :
    (numberKeys numbering files).length = startOf files files.length := by
  have hz : ∀ n, ((files.zipIdx n).flatMap fun x => numbersOf numbering x.1 x.2).length =
      (files.map fun f => f.tokens.length + 1).sum := by
    induction files with
    | nil => simp
    | cons f files ih => simp [ih]
  rw [startOf, List.take_length, ← hz 0]
  rfl

lemma getElem?_numberKeys (numbering : Numbering) (hf : files[k]? = some f) (hi : i ≤ f.tokens.length) :
    (numberKeys numbering files)[startOf files k + i]? = (numbersOf numbering f k)[i]? := by
  have hz : files.zipIdx[k]? = some (f, k) := by simp [hf]
  have ht : files.zipIdx.take k = (files.take k).zipIdx := by
    refine List.ext_getElem? fun m => ?_
    rw [List.getElem?_take, List.getElem?_zipIdx, List.getElem?_zipIdx, List.getElem?_take]
    split <;> rfl
  have hl : (((files.zipIdx).take k).flatMap fun x => numbersOf numbering x.1 x.2).length =
      startOf files k := by
    have hk := (List.getElem?_eq_some_iff.mp hf).1
    rw [ht]
    refine (length_numberKeys numbering (files.take k)).trans ?_
    rw [startOf, startOf, List.take_length]
  rw [← hl]
  exact getElem?_flatMap (fun x : TokenizedFile × ℕ => numbersOf numbering x.1 x.2) hz (by simp; omega)

lemma length_flatMap_tokens (h : k ≤ files.length) :
    ((files.take k).flatMap (·.tokens)).length = startOf files k - k := by
  have hs : ∀ s : List TokenizedFile, (s.flatMap (·.tokens)).length + s.length =
      (s.map fun f => f.tokens.length + 1).sum := by
    intro s
    induction s with
    | nil => rfl
    | cons f s ih =>
      simp only [List.flatMap_cons, List.length_append, List.length_cons, List.map_cons, List.sum_cons, ← ih]
      omega
  have := hs (files.take k)
  rw [List.length_take, Nat.min_eq_left h] at this
  rw [startOf]
  omega

lemma le_startOf (h : k ≤ files.length) : k ≤ startOf files k := by
  induction k with
  | zero => exact Nat.zero_le _
  | succ k ih =>
    have hs := startOf_succ (List.getElem?_eq_getElem (by omega : k < files.length))
    have := ih (by omega)
    omega

def placed (files : List TokenizedFile) (k : ℕ) (f : TokenizedFile) : CorpusFile :=
  ⟨f.path, f.language, f.inputIndex, f.source, startOf files k, startOf files k + f.tokens.length⟩

lemma getElem?_files (files : List TokenizedFile) (k : ℕ) :
    (ofFiles files).files[k]? = files[k]?.map (placed files k) := by
  simp only [ofFiles, List.getElem?_toArray, getElem?_placeFiles, Nat.zero_add]
  rfl

lemma getElem?_tokens (hf : files[k]? = some f) (hi : i < f.tokens.length) :
    (ofFiles files).tokens[startOf files k + i - k]? = f.tokens[i]? := by
  have hk := (List.getElem?_eq_some_iff.mp hf).1
  have hle := le_startOf (Nat.le_of_lt hk)
  have ht := getElem?_flatMap (fun f : TokenizedFile => f.tokens) hf hi
  rw [length_flatMap_tokens (Nat.le_of_lt hk)] at ht
  rw [show startOf files k + i - k = startOf files k - k + i by omega, ← ht]
  simp only [ofFiles, List.getElem?_toArray]

structure LiesIn (files : List TokenizedFile) (length p k i : ℕ) (f : TokenizedFile) : Prop where
  file : files[k]? = some f
  position : p = startOf files k + i
  room : i + length ≤ f.tokens.length

lemma LiesIn.unique {length length' : ℕ} (h : LiesIn files length p k i f) (h' : LiesIn files length' p l j g) :
    k = l ∧ i = j ∧ f = g := by
  have hi := h.room
  have hj := h'.room
  obtain ⟨rfl, rfl⟩ := place_unique h.file h'.file (by omega) (by omega) (h.position.symm.trans h'.position)
  have hf := h.file
  rw [h'.file, Option.some.injEq] at hf
  exact ⟨rfl, rfl, hf.symm⟩

lemma LiesIn.apart {length : ℕ} (hf : LiesIn files length p k i f)
    (hg : LiesIn files length q l j g)
    (h : k ≠ l ∨ i + length ≤ j ∨ j + length ≤ i) : p + length ≤ q ∨ q + length ≤ p := by
  have hi := hf.room
  have hj := hg.room
  have hp := hf.position
  have hq := hg.position
  rcases Nat.lt_trichotomy k l with hlt | rfl | hlt
  · have := startOf_add_lt hf.file hlt
    omega
  · omega
  · have := startOf_add_lt hg.file hlt
    omega

end Corpus

end CodeClones
