import Mathlib
import CodeClones.Proofs.Corpus.Outcome

/-! What a corpus that is built from source files consists of. -/

namespace CodeClones.Corpus

/-- The corpus holds the tokens of the files that can be tokenized, file by file with a sentinel behind each.
Equal tokens have equal keys, numbered from 0 on as they first occur; a sentinel has a key of its own. -/
structure Represents (r : Registry) (o : Options) (files : List SourceFile) (c : Corpus) : Prop where
  size : c.keys.size = c.tokens.size + c.files.size
  accepted : ∀ n, (∃ f ∈ c.files, f.inputIndex = n) ↔ (tokensOf? r o files n).isSome
  ordered : c.files.toList.Pairwise fun f g => f.inputIndex < g.inputIndex
  tokens : ∀ f ∈ c.files, ∃ tokens, tokensOf? r o files f.inputIndex = some tokens ∧
    f.stop = f.start + tokens.length
  first : ∀ f, c.files[0]? = some f → f.start = 0
  next : ∀ k f g, c.files[k]? = some f → c.files[k + 1]? = some g → g.start = f.stop + 1
  final : ∀ f, c.files.back? = some f → c.keys.size = f.stop + 1
  isSentinel_iff : ∀ p, c.isSentinel p = true ↔ ∃ f ∈ c.files, p = f.stop
  keys_eq_iff : ∀ p < c.keys.size, ∀ q < c.keys.size, c.keys[p]? = c.keys[q]? ↔
    p = q ∨ c.isSentinel p = false ∧ c.isSentinel q = false ∧
      (c.tokenAt? p).map (·.key) = (c.tokenAt? q).map (·.key)
  numbers : ∀ n, n < c.distinctKeys ↔ ∃ p, c.isSentinel p = false ∧ c.keys[p]? = some n
  numbers_before : ∀ p n, c.isSentinel p = false → c.keys[p]? = some n →
    ∀ m < n, ∃ q < p, c.keys[q]? = some m
  fileAt_place : ∀ p < c.keys.size, ∃ f tokens, c.files[c.fileAt p]? = some f ∧ f.start ≤ p ∧ p ≤ f.stop ∧
    tokensOf? r o files f.inputIndex = some tokens ∧ c.tokenAt? p = tokens[p - f.start]?
  fileAt_end : c.fileAt c.keys.size = c.files.size
  tokenAt?_eq_none_iff : ∀ p ≤ c.keys.size, c.tokenAt? p = none ↔ p = c.keys.size ∨ c.isSentinel p = true

variable {r : Registry} {o : Options} {files : List SourceFile} {given : List TokenizedFile} {f : CorpusFile}
  {k p : ℕ}

lemma mem_files : f ∈ (ofFiles given).files ↔ ∃ k g, given[k]? = some g ∧ f = placed given k g := by
  simp only [Array.mem_iff_getElem?, getElem?_files, Option.map_eq_some_iff, eq_comm (b := f)]

lemma size_keys_eq_add (given : List TokenizedFile) :
    (ofFiles given).keys.size = (ofFiles given).tokens.size + (ofFiles given).files.size := by
  have hl := length_flatMap_tokens (le_refl given.length)
  have hle := le_startOf (le_refl given.length)
  rw [List.take_length] at hl
  rw [size_keys, size_files, ofFiles, List.size_toArray, hl]
  omega

lemma isSentinel_iff_stop : (ofFiles given).isSentinel p = true ↔ ∃ f ∈ (ofFiles given).files, p = f.stop := by
  constructor
  · intro h
    have hp : p < (ofFiles given).keys.size := by
      by_contra hp
      rw [isSentinel, Array.getElem?_eq_none (by omega)] at h
      exact absurd h (by simp)
    obtain ⟨k, f, i, hf, hi, rfl⟩ := exists_place_of_lt hp
    obtain rfl := (isSentinel_place hf hi).mp h
    exact ⟨placed given k f, mem_files.mpr ⟨k, f, hf, rfl⟩, rfl⟩
  · rintro ⟨f, hf, rfl⟩
    obtain ⟨k, g, hg, rfl⟩ := mem_files.mp hf
    exact (isSentinel_place hg le_rfl).mpr rfl

lemma start_first (hf : (ofFiles given).files[0]? = some f) : f.start = 0 := by
  rw [getElem?_files, Option.map_eq_some_iff] at hf
  obtain ⟨g, -, rfl⟩ := hf
  exact startOf_zero given

lemma start_next {g : CorpusFile} (hf : (ofFiles given).files[k]? = some f)
    (hg : (ofFiles given).files[k + 1]? = some g) : g.start = f.stop + 1 := by
  rw [getElem?_files, Option.map_eq_some_iff] at hf hg
  obtain ⟨f, hf, rfl⟩ := hf
  obtain ⟨g, -, rfl⟩ := hg
  exact startOf_succ hf

lemma stop_final (hf : (ofFiles given).files.back? = some f) : (ofFiles given).keys.size = f.stop + 1 := by
  rw [Array.back?_eq_getElem?, getElem?_files, Option.map_eq_some_iff, size_files] at hf
  obtain ⟨g, hg, rfl⟩ := hf
  have hlt := (List.getElem?_eq_some_iff.mp hg).1
  rw [size_keys, show given.length = given.length - 1 + 1 by omega, startOf_succ hg]
  rfl

lemma numbers_lt_iff {n : ℕ} : n < (ofFiles given).distinctKeys ↔
    ∃ p, (ofFiles given).isSentinel p = false ∧ (ofFiles given).keys[p]? = some n := by
  constructor
  · exact exists_getElem?_keys
  · rintro ⟨p, hp, hn⟩
    rw [isSentinel, hn] at hp
    simpa using hp

lemma map_inputIndex_placeFiles (n : ℕ) (given : List TokenizedFile) :
    (placeFiles n given).map (·.inputIndex) = given.map (·.inputIndex) := by
  induction given generalizing n with
  | nil => rfl
  | cons f given ih => simp [placeFiles, ih]

lemma pairwise_files (r : Registry) (o : Options) (files : List SourceFile) :
    (ofFiles (gathered r o files)).files.toList.Pairwise fun f g => f.inputIndex < g.inputIndex := by
  have hm : (placeFiles 0 (gathered r o files)).map (·.inputIndex) = _ := map_inputIndex_placeFiles 0 _
  have hp := pairwise_inputIndex r o files
  rw [← List.pairwise_map, ← hm, List.pairwise_map] at hp
  exact hp

lemma tokensOf?_of_mem_files (hf : f ∈ (ofFiles (gathered r o files)).files) :
    ∃ tokens, tokensOf? r o files f.inputIndex = some tokens ∧ f.stop = f.start + tokens.length := by
  obtain ⟨k, g, hg, rfl⟩ := mem_files.mp hf
  obtain ⟨-, -, -, ht⟩ := tokensOf?_of_mem (List.mem_of_getElem? hg)
  exact ⟨g.tokens, ht, rfl⟩

lemma exists_mem_files_iff (n : ℕ) : (∃ f ∈ (ofFiles (gathered r o files)).files, f.inputIndex = n) ↔
    (tokensOf? r o files n).isSome := by
  rw [Option.isSome_iff_exists]
  constructor
  · rintro ⟨f, hf, rfl⟩
    obtain ⟨tokens, ht, -⟩ := tokensOf?_of_mem_files hf
    exact ⟨tokens, ht⟩
  · rintro ⟨tokens, ht⟩
    obtain ⟨g, hg, rfl, -⟩ := exists_mem_of_tokensOf? ht
    obtain ⟨k, hg⟩ := List.getElem?_of_mem hg
    exact ⟨placed (gathered r o files) k g, mem_files.mpr ⟨k, g, hg, rfl⟩, rfl⟩

lemma exists_file_at (hp : p < (ofFiles (gathered r o files)).keys.size) : ∃ f tokens,
    (ofFiles (gathered r o files)).files[(ofFiles (gathered r o files)).fileAt p]? = some f ∧
      f.start ≤ p ∧ p ≤ f.stop ∧ tokensOf? r o files f.inputIndex = some tokens ∧
      (ofFiles (gathered r o files)).tokenAt? p = tokens[p - f.start]? := by
  obtain ⟨k, f, i, hf, hi, rfl⟩ := exists_place_of_lt hp
  obtain ⟨-, -, -, ht⟩ := tokensOf?_of_mem (List.mem_of_getElem? hf)
  refine ⟨placed (gathered r o files) k f, f.tokens, ?_, Nat.le_add_right _ _, ?_, ht, ?_⟩
  · rw [fileAt_place hf hi, getElem?_files, hf, Option.map_some]
  · simp only [placed]
    omega
  · rw [tokenAt?_place hf hi]
    simp only [placed, Nat.add_sub_cancel_left]

/-- Whatever files are left out or have no tokens, the corpus represents the others. -/
theorem build_represents {cancelled : Bool} {built : Corpus × List TokenizationError}
    (h : build r o cancelled files = .ok built) : Represents r o files built.1 := by
  rw [build_eq_ok h]
  exact {
    size := size_keys_eq_add _
    accepted := exists_mem_files_iff
    ordered := pairwise_files r o files
    tokens := fun f hf => tokensOf?_of_mem_files hf
    first := fun f hf => start_first hf
    next := fun k f g hf hg => start_next hf hg
    final := fun f hf => stop_final hf
    isSentinel_iff := fun p => isSentinel_iff_stop
    keys_eq_iff := fun p hp q hq => getElem?_keys_eq_iff hp hq
    numbers := fun n => numbers_lt_iff
    numbers_before := fun p n hp hn m hm => exists_getElem?_keys_before hp hn hm
    fileAt_place := fun p hp => exists_file_at hp
    fileAt_end := by rw [fileAt_size, size_files]
    tokenAt?_eq_none_iff := fun p hp => tokenAt?_eq_none_iff hp }

theorem build_represents_words : ∃ built, build (.register (.register .empty (.words "words" []) [])
      ⟨"none", [], true, fun _ _ _ => ⟨[], some ⟨⟨1, 1⟩, "unreadable"⟩⟩⟩ [])
      { language := "words" } false [⟨"a", "", none⟩, ⟨"b", "x", some "none"⟩, ⟨"c", "x y x", none⟩] =
        .ok built ∧ built.1.keys = #[2, 0, 1, 0, 3] ∧
    Represents (.register (.register .empty (.words "words" []) [])
      ⟨"none", [], true, fun _ _ _ => ⟨[], some ⟨⟨1, 1⟩, "unreadable"⟩⟩⟩ [])
      { language := "words" } [⟨"a", "", none⟩, ⟨"b", "x", some "none"⟩, ⟨"c", "x y x", none⟩] built.1 :=
  ⟨_, by cbv, rfl, build_represents (show build _ _ false _ = _ by cbv)⟩

end CodeClones.Corpus
