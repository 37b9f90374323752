import Mathlib
import CodeClones.Proofs.Files.Collection
import CodeClones.Proofs.Files.Dots
import CodeClones.Proofs.Files.Excludes

/-! A scan collects what its candidates are worth, counts all of them, and the order of the given paths decides only
about the order of the files. -/

namespace CodeClones.Files

open Success

variable {δ : Type} {walk : Walker δ} {fs : FileSystemOf δ} {o : ScanOptions} {r : Registry} {selection : Selection}
  {paths others found found' : List String} {path p q : String} {content : ByteArray}

/-! ### Candidates -/

/-- The candidates for a file, as far as they are not excluded, can all be looked up by their paths, or none of them
can. -/
def OpenAlike (fs : FileSystemOf δ) (o : ScanOptions) (found : List String) : Prop :=
  ∀ p ∈ admitted fs o found, ∀ q ∈ admitted fs o found, fs.identity p = fs.identity q →
    (fs.resolve p).isOk = (fs.resolve q).isOk

lemma OpenAlike.perm (h : OpenAlike fs o found) (hp : found.Perm found') : OpenAlike fs o found' := by
  intro p hpf q hqf
  exact h p ((hp.filter _).mem_iff.mpr hpf) q ((hp.filter _).mem_iff.mpr hqf)

lemma checkPaths_eq_ok (hne : paths ≠ []) (hpaths : ∀ path ∈ paths, ∃ t, fs.resolve path = .ok t) :
    checkPaths fs paths = .ok () := by
  rw [checkPaths, if_neg hne, List.forM_eq_forM]
  clear hne
  induction paths with
  | nil => rfl
  | cons path paths ih =>
    obtain ⟨⟨t, ht⟩, hrest⟩ := List.forall_mem_cons.mp hpaths
    rw [List.forM_cons, ht]
    exact ih hrest

lemma ofOptions_eq_ok (hlang : ∀ language, o.language = some language → r.contains language = true) :
    (Selection.ofOptions o r : Except (ScanErrorOf δ) _) = .ok ⟨r, o.language.bind r.get?⟩ := by
  rw [Selection.ofOptions]
  cases hl : o.language with
  | none => rfl
  | some language =>
    obtain ⟨t, ht⟩ := Option.isSome_iff_exists.mp (hlang language hl)
    simp [ht]

lemma exists_scan (walk : Walker δ) (hne : paths ≠ []) (hpaths : ∀ path ∈ paths, ∃ t, fs.resolve path = .ok t)
    (hlang : ∀ language, o.language = some language → r.contains language = true) :
    ∃ s : ScanState, scanWith walk fs paths o r = .ok (s.files.reverse, s.statistics) ∧
      Accounts fs o ⟨r, o.language.bind r.get?⟩ (allCandidates walk fs o ⟨r, o.language.bind r.get?⟩ paths)
        (allFailures walk fs o ⟨r, o.language.bind r.get?⟩ paths)
        (allCandidates walk fs o ⟨r, o.language.bind r.get?⟩ paths).length s := by
  refine ⟨_, ?_, accounts_foldl paths⟩
  rw [scanWith, checkPaths_eq_ok hne hpaths, ofOptions_eq_ok hlang]
  rfl

/-! ### All scans -/

def listing (names : List String) : Walker δ := fun _ path =>
  .error none :: names.map fun name => .ok ⟨String.ofList (enter path.toList name), name, 1, false, some .file⟩

def loneFile : FileSystem := ⟨[("a.c", .file "x".toUTF8)], []⟩

def dots (n : ℕ) : String := String.ofList (dotted n ['.'])

def dottedFile (n : ℕ) : String := String.ofList (dotted n "a.c".toList)

lemma resolve_dots {n : ℕ} (hn : 2 * n < 4095) : loneFile.resolve (dots n) = .ok [] := by
  have hsize : ¬FileSystemOf.maxPathLength < (dots n).utf8ByteSize := by
    rw [dots, utf8ByteSize_dotted, FileSystemOf.maxPathLength, show (String.ofList ['.']).utf8ByteSize = 1 by decide]
    omega
  have hdot : loneFile.locate (String.ofList ['.']) = .ok [] := by cbv
  rw [FileSystemOf.resolve, if_neg fun h => hsize h.1, dots,
    FileSystemOf.locate_dotted (List.cons_ne_nil _ _) (by decide) (by decide), hdot]

lemma locate_dottedFile (n : ℕ) : loneFile.locate (dottedFile n) = .ok [("a.c", .file "x".toUTF8)] := by
  rw [dottedFile, FileSystemOf.locate_dotted (by decide) (by decide) (by decide)]
  rfl

lemma candidates_dots {n : ℕ} (hn : 2 * n < 4095) :
    (candidates (listing ["a.c"]) loneFile {} ⟨.builtin, none⟩ (dots n)).1 = [dottedFile (n + 1)] := by
  have hfile : loneFile.isFile (dots n) = false := by
    rw [FileSystemOf.isFile, resolve_dots hn]
    rfl
  have haccepts : Selection.accepts ⟨.builtin, none⟩ (dottedFile (n + 1)) = true := by
    rw [Selection.accepts, dottedFile, components_dotted]
    decide +kernel
  have henter : String.ofList (enter (dots n).toList "a.c") = dottedFile (n + 1) := by
    rw [dots, String.toList_ofList, enter_dotted, dottedFile]
  have hfound : (walkFiles (listing ["a.c"]) loneFile {} (dots n)).1 = [dottedFile (n + 1)] := by
    simp [walkFiles, listing, Except.toOption, Entry.filePath?, henter]
  rw [candidates, hfile]
  simp only [hfound, List.filter_singleton, haccepts, cond_true, List.mergeSort_singleton, Bool.false_eq_true, if_false]

lemma source?_dottedFile {n : ℕ} {o : ScanOptions} (hn : 4093 ≤ 2 * n) : source? loneFile o (dottedFile n) = none := by
  have hsize : FileSystemOf.maxPathLength < (dottedFile n).utf8ByteSize := by
    rw [dottedFile, utf8ByteSize_dotted, FileSystemOf.maxPathLength,
      show (String.ofList "a.c".toList).utf8ByteSize = 3 by decide]
    omega
  have hnull : (dottedFile n).toList.contains '\x00' = false := by
    rw [dottedFile, String.toList_ofList]
    exact contains_dotted (by decide)
  rw [source?, FileSystemOf.contentAt?, FileSystemOf.resolve, if_pos ⟨hsize, by rw [hnull]; exact Bool.false_ne_true⟩]
  rfl

lemma admitted_dottedFile (found : List String) : admitted loneFile {} found = found := by
  refine List.filter_eq_self.mpr fun p _ => ?_
  simp [isExcluded, Excludes.contains, Excludes.ofPaths]

lemma firsts_dottedFile (m n : ℕ) : firsts loneFile.identity [dottedFile m, dottedFile n] = [dottedFile m] := by
  simp [firsts, isRepeated, FileSystemOf.identity, FileSystemOf.canonical?, locate_dottedFile]
  rfl

lemma taken_long {m n : ℕ} (hm : 4093 ≤ 2 * m) :
    taken loneFile {} [dottedFile m, dottedFile n] = [] := by
  rw [taken, admitted_dottedFile, firsts_dottedFile, List.filterMap_cons, source?_dottedFile hm]
  rfl

lemma taken_short (n : ℕ) :
    taken loneFile {} [dottedFile 1, dottedFile n] = [(dottedFile 1, "x".toUTF8)] := by
  have hsource : source? loneFile {} (dottedFile 1) = some "x".toUTF8 := by
    rw [source?, show loneFile.contentAt? (dottedFile 1) = some "x".toUTF8 from rfl]
    decide +kernel
  rw [taken, admitted_dottedFile, firsts_dottedFile, List.filterMap_cons, hsource]
  rfl

lemma exists_resolve_dots {m n : ℕ} (hm : 2 * m < 4095) (hn : 2 * n < 4095) :
    ∀ path ∈ [dots m, dots n], ∃ t, loneFile.resolve path = .ok t := by
  simp [resolve_dots hm, resolve_dots hn]

lemma scan_dots {paths : List String} (hne : paths ≠ [])
    (hpaths : ∀ path ∈ paths, ∃ t, loneFile.resolve path = .ok t) : ∃ statistics,
    scanWith (listing ["a.c"]) loneFile paths {} .builtin =
      .ok ((taken loneFile {} (allCandidates (listing ["a.c"]) loneFile {} ⟨.builtin, none⟩ paths)).map
        fun x => Selection.sourceFile ⟨.builtin, none⟩ x.1 x.2, statistics) := by
  obtain ⟨s, hs, haccounts⟩ := exists_scan (listing ["a.c"]) (o := {}) (r := .builtin) hne hpaths (by simp)
  exact ⟨s.statistics, by rw [hs, haccounts.files]; rfl⟩

/-- A file is not collected by the second of two paths if the first is too long, although it is the other way round. -/
theorem scan_hides :
    (∃ statistics, scanWith (listing ["a.c"]) loneFile [dots 2047, dots 0] {} .builtin = .ok ([], statistics)) ∧
    ∃ file statistics, scanWith (listing ["a.c"]) loneFile [dots 0, dots 2047] {} .builtin =
      .ok ([file], statistics) := by
  have hpaths := exists_resolve_dots (m := 2047) (n := 0) (by omega) (by omega)
  have hpaths' := exists_resolve_dots (m := 0) (n := 2047) (by omega) (by omega)
  obtain ⟨statistics, hlong⟩ := scan_dots (List.cons_ne_nil _ _) hpaths
  obtain ⟨statistics', hshort⟩ := scan_dots (List.cons_ne_nil _ _) hpaths'
  have hlast := candidates_dots (n := 2047) (by omega)
  have hfirst := candidates_dots (n := 0) (by omega)
  simp only [allCandidates, List.flatMap_cons, List.flatMap_nil, List.append_nil, hlast, hfirst,
    List.cons_append, List.nil_append] at hlong hshort
  rw [taken_long (by omega)] at hlong
  rw [taken_short] at hshort
  exact ⟨⟨statistics, hlong⟩, _, statistics', hshort⟩

end CodeClones.Files
