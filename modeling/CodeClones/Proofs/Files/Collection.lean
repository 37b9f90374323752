import Mathlib
import CodeClones.Files.Scan
import CodeClones.Proofs.Files.Trails
import CodeClones.Proofs.Firsts
import CodeClones.Proofs.Success

/-! What a scan collects: of all candidates, those that are not excluded, of these the first one for each file, and of
these the ones that are source files. -/

namespace CodeClones.Files

namespace ScanStatistics

def skipped (s : ScanStatistics) : SkipReason → ℕ
  | .notFound => s.notFound
  | .permissionDenied => s.permissionDenied
  | .tooLarge => s.tooLarge
  | .binary => s.binary
  | .excluded => s.excluded
  | .walkError => s.walkErrors

variable (s : ScanStatistics) (reason other : SkipReason)

lemma skipped_skip : (s.skip reason).skipped other = s.skipped other + [reason].count other := by
  cases reason <;> cases other <;> rfl

@[simp] lemma candidateFiles_skip : (s.skip reason).candidateFiles = s.candidateFiles := by cases reason <;> rfl

@[simp] lemma scannedFiles_skip : (s.skip reason).scannedFiles = s.scannedFiles := by cases reason <;> rfl

@[simp] lemma scannedBytes_skip : (s.skip reason).scannedBytes = s.scannedBytes := by cases reason <;> rfl

end ScanStatistics

section

variable {δ : Type} (fs : FileSystemOf δ) (o : ScanOptions)

def isExcluded (path : String) : Bool := (Excludes.ofPaths fs o.excludes).contains fs path

/-- The content of a source file: a file within the limit of sizes that has no zero byte. -/
def source? (path : String) : Option ByteArray :=
  (fs.contentAt? path).filter fun content => o.maxFileSize.all (content.size ≤ ·) && !content.data.contains 0

def admitted (found : List String) : List String := found.filter fun path => !isExcluded fs o path

def taken (found : List String) : List (String × ByteArray) :=
  (firsts fs.identity (admitted fs o found)).filterMap fun path => (source? fs o path).map (path, ·)

def refusal? (path : String) : Option SkipReason :=
  match readSource fs o.maxFileSize path with
  | .error reason => some reason
  | .ok _ => none

def refused (found : List String) : List SkipReason :=
  (firsts fs.identity (admitted fs o found)).filterMap (refusal? fs o)

def skips (found : List String) (failed : List SkipReason) : List SkipReason :=
  failed ++ (found.filter (isExcluded fs o)).map (fun _ => .excluded) ++ refused fs o found

end

variable {δ : Type} {walk : Walker δ} {fs : FileSystemOf δ} {o : ScanOptions} {selection : Selection} {s : ScanState}
  {found : List String} {failed : List SkipReason} {path : String} {content : ByteArray} {reason : SkipReason}
  {count : ℕ}

/-! ### Reading -/

lemma readSource_eq_ok : readSource fs o.maxFileSize path = .ok content ↔ source? fs o path = some content := by
  rw [readSource, source?, Option.filter_eq_some_iff, FileSystemOf.contentAt?]
  cases fs.resolve path with
  | error cause => simp [Except.toOption]
  | ok t =>
    simp only [Except.toOption, Option.bind_some, FileSystemOf.content?]
    cases hn : fs.nodeAt t with
    | file file =>
      have hsize : o.maxFileSize.all (file.size ≤ ·) = !o.maxFileSize.any (· < file.size) := by
        cases o.maxFileSize with
        | none => rfl
        | some max => simp [← decide_not]
      rw [Option.some_inj, NodeOf.size?, Option.any_some]
      by_cases he : file = content
      · subst he
        split
        · simp_all
        · split <;> simp_all
      · simp only [he, false_and, iff_false]
        split
        · simp
        · split
          · simp
          · exact fun h => he (Except.ok.inj h)
    | directory entries => simp [NodeOf.size?]
    | link target => simp [NodeOf.size?]
    | lockedFile reason size =>
      dsimp only
      split <;> simp
    | lockedDirectory reason => simp [NodeOf.size?]

lemma refusal?_of_ok (hr : readSource fs o.maxFileSize path = .ok content) : refusal? fs o path = none := by
  rw [refusal?, hr]

lemma refusal?_of_error (hr : readSource fs o.maxFileSize path = .error reason) :
    refusal? fs o path = some reason := by
  rw [refusal?, hr]

lemma source?_of_error (hr : readSource fs o.maxFileSize path = .error reason) : source? fs o path = none := by
  refine Option.eq_none_iff_forall_ne_some.mpr fun content hs => ?_
  rw [readSource_eq_ok.mpr hs] at hr
  cases hr

/-! ### The state of a scan -/

structure Holds (selection : Selection) (taken : List (String × ByteArray)) (met : List (List String))
    (skips : List SkipReason) (count : ℕ) (s : ScanState) : Prop where
  files : s.files.reverse = taken.map fun (path, content) => selection.sourceFile path content
  met : ∀ file, s.met.contains file = true ↔ file ∈ met
  candidateFiles : s.statistics.candidateFiles = count
  scannedFiles : s.statistics.scannedFiles = taken.length
  scannedBytes : s.statistics.scannedBytes = (taken.map fun (_, content) => content.size).sum
  skipped : ∀ reason, s.statistics.skipped reason = skips.count reason

namespace Holds

variable {given : List (String × ByteArray)} {met met' : List (List String)} {reasons reasons' : List SkipReason}

lemma empty : Holds selection [] [] [] 0 {} :=
  ⟨rfl, fun _ => by simp, rfl, rfl, rfl, fun reason => by cases reason <;> rfl⟩

lemma congr (h : Holds selection given met reasons count s) (hm : ∀ file, file ∈ met ↔ file ∈ met')
    (hr : reasons.Perm reasons') : Holds selection given met' reasons' count s :=
  { h with
    met := fun file => (h.met file).trans (hm file)
    skipped := fun reason => (h.skipped reason).trans (hr.count_eq reason) }

lemma skip (h : Holds selection given met reasons count s) (reason : SkipReason) :
    Holds selection given met (reasons ++ [reason]) count (s.skip reason) where
  files := h.files
  met := h.met
  candidateFiles := by rw [ScanState.skip, ScanStatistics.candidateFiles_skip, h.candidateFiles]
  scannedFiles := by rw [ScanState.skip, ScanStatistics.scannedFiles_skip, h.scannedFiles]
  scannedBytes := by rw [ScanState.skip, ScanStatistics.scannedBytes_skip, h.scannedBytes]
  skipped other := by rw [ScanState.skip, ScanStatistics.skipped_skip, h.skipped, List.count_append]

lemma meet (h : Holds selection given met reasons count s) (file : List String) :
    Holds selection given (met ++ [file]) reasons count (s.meet file) :=
  { h with
    met := fun other => by
      rw [ScanState.meet, Std.TreeSet.contains_insert, Bool.or_eq_true, beq_iff_eq,
        Std.LawfulEqCmp.compare_eq_iff_eq, h.met, List.mem_append, List.mem_singleton, or_comm, eq_comm] }

lemma take (h : Holds selection given met reasons count s) (path : String) (content : ByteArray) :
    Holds selection (given ++ [(path, content)]) met reasons count
      (s.take (selection.sourceFile path content) content.size) where
  files := by rw [ScanState.take, List.reverse_cons, h.files, List.map_append]; rfl
  met := h.met
  candidateFiles := h.candidateFiles
  scannedFiles := by rw [ScanState.take, h.scannedFiles, List.length_append]; rfl
  scannedBytes := by rw [ScanState.take, h.scannedBytes, List.map_append, List.sum_append]; rfl
  skipped reason := by rw [← h.skipped]; cases reason <;> rfl

lemma skipAll (h : Holds selection given met reasons count s) (failed : List SkipReason) :
    Holds selection given met (reasons ++ failed) count
      { s with statistics := failed.foldl ScanStatistics.skip s.statistics } := by
  induction failed generalizing reasons s with
  | nil => simpa using h
  | cons reason failed ih => simpa [ScanState.skip] using ih (h.skip reason)

lemma countMore (h : Holds selection given met reasons count s) (n : ℕ) :
    Holds selection given met reasons (count + n)
      { s with statistics := { s.statistics with candidateFiles := s.statistics.candidateFiles + n } } :=
  { h with
    candidateFiles := by rw [h.candidateFiles]
    skipped := fun reason => by rw [← h.skipped]; cases reason <;> rfl }

end Holds

/-! ### One candidate -/

lemma admitted_excluded (hx : isExcluded fs o path = true) : admitted fs o (found ++ [path]) = admitted fs o found := by
  simp [admitted, hx]

lemma admitted_concat (hx : isExcluded fs o path = false) :
    admitted fs o (found ++ [path]) = admitted fs o found ++ [path] := by
  simp [admitted, hx]

def Accounts (fs : FileSystemOf δ) (o : ScanOptions) (selection : Selection) (found : List String)
    (failed : List SkipReason) (count : ℕ) (s : ScanState) : Prop :=
  Holds selection (taken fs o found) ((admitted fs o found).map fs.identity) (skips fs o found failed) count s

namespace Accounts

lemma addExcluded (h : Accounts fs o selection found failed count s) (hx : isExcluded fs o path = true) :
    Accounts fs o selection (found ++ [path]) failed count (s.skip .excluded) := by
  have hskips : (skips fs o found failed ++ [SkipReason.excluded]).Perm (skips fs o (found ++ [path]) failed) := by
    -- The excluded ones are listed before those read in vain, whenever they come.
    rw [skips, skips, refused, refused, admitted_excluded hx, List.filter_append, List.filter_singleton, hx,
      List.map_append, List.append_assoc, List.append_assoc, List.append_assoc, List.append_assoc]
    exact (List.perm_append_comm.append_left _).append_left _
  rw [Accounts, taken, admitted_excluded hx]
  exact (Holds.skip h .excluded).congr (fun _ => Iff.rfl) hskips

variable (h : Accounts fs o selection found failed count s) (hx : isExcluded fs o path = false)

include h hx

lemma addRepeated (hm : s.met.contains (fs.identity path) = true) :
    Accounts fs o selection (found ++ [path]) failed count s := by
  have hmem := (h.met _).mp hm
  have hskips : skips fs o (found ++ [path]) failed = skips fs o found failed := by
    rw [skips, refused, admitted_concat hx, firsts_concat, if_pos hmem, List.filter_append,
      List.filter_singleton, hx, cond_false, List.append_nil, skips, refused]
  rw [Accounts, taken, hskips, admitted_concat hx, firsts_concat, if_pos hmem]
  refine Holds.congr h (fun file => ?_) (.refl _)
  rw [List.map_append, List.mem_append, List.map_singleton, List.mem_singleton]
  exact (or_iff_left_of_imp fun he => he ▸ hmem).symm

variable (hm : s.met.contains (fs.identity path) = false)

include hm

lemma firsts_admitted : firsts fs.identity (admitted fs o (found ++ [path])) =
    firsts fs.identity (admitted fs o found) ++ [path] := by
  have hmem : fs.identity path ∉ (admitted fs o found).map fs.identity := fun hin => by
    rw [(h.met _).mpr hin] at hm
    exact Bool.noConfusion hm
  rw [admitted_concat hx, firsts_concat, if_neg hmem]

lemma addRefused (hr : readSource fs o.maxFileSize path = .error reason) :
    Accounts fs o selection (found ++ [path]) failed count ((s.meet (fs.identity path)).skip reason) := by
  have htaken : taken fs o (found ++ [path]) = taken fs o found := by
    simp [taken, firsts_admitted h hx hm, source?_of_error hr]
  have hskips : skips fs o (found ++ [path]) failed = skips fs o found failed ++ [reason] := by
    simp [skips, refused, firsts_admitted h hx hm, hx, refusal?_of_error hr]
  rw [Accounts, htaken, hskips, admitted_concat hx, List.map_append]
  exact (Holds.meet h (fs.identity path)).skip reason

lemma addTaken (hr : readSource fs o.maxFileSize path = .ok content) :
    Accounts fs o selection (found ++ [path]) failed count
      ((s.meet (fs.identity path)).take (selection.sourceFile path content) content.size) := by
  have htaken : taken fs o (found ++ [path]) = taken fs o found ++ [(path, content)] := by
    simp [taken, firsts_admitted h hx hm, readSource_eq_ok.mp hr]
  have hskips : skips fs o (found ++ [path]) failed = skips fs o found failed := by
    simp [skips, refused, firsts_admitted h hx hm, hx, refusal?_of_ok hr]
  rw [Accounts, htaken, hskips, admitted_concat hx, List.map_append]
  exact (Holds.meet h (fs.identity path)).take path content

omit hx hm

lemma add (path : String) : Accounts fs o selection (found ++ [path]) failed count
    (s.add fs o selection (.ofPaths fs o.excludes) path) := by
  rw [ScanState.add, ← isExcluded]
  cases hx : isExcluded fs o path with
  | true => exact addExcluded h hx
  | false =>
    cases hm : s.met.contains (fs.identity path) with
    | true => exact addRepeated h hx hm
    | false =>
      cases hr : readSource fs o.maxFileSize path with
      | error reason => exact addRefused h hx hm hr
      | ok content => exact addTaken h hx hm hr

lemma addAll (paths : List String) : Accounts fs o selection (found ++ paths) failed count
    (paths.foldl (ScanState.add fs o selection (.ofPaths fs o.excludes)) s) := by
  induction paths generalizing found s with
  | nil => simpa using h
  | cons path paths ih => simpa using ih (h.add path)

omit h

lemma addFailures (h : Accounts fs o selection found failed count s) (more : List SkipReason) :
    Accounts fs o selection found (failed ++ more) count
      { s with statistics := more.foldl ScanStatistics.skip s.statistics } := by
  refine (Holds.skipAll h more).congr (fun _ => Iff.rfl) ?_
  simp only [skips, List.append_assoc]
  refine List.Perm.append_left _ ?_
  rw [← List.append_assoc]
  exact List.perm_append_comm

lemma addPath (h : Accounts fs o selection found failed found.length s) (path : String) :
    Accounts fs o selection (found ++ (candidates walk fs o selection path).1)
      (failed ++ (candidates walk fs o selection path).2) (found ++ (candidates walk fs o selection path).1).length
      (s.addPath walk fs o selection (.ofPaths fs o.excludes) path) := by
  rw [List.length_append]
  exact addAll (Holds.countMore (h.addFailures (candidates walk fs o selection path).2) _) _

end Accounts

/-! ### All candidates -/

section

variable (walk fs o) (selection : Selection)

def allCandidates (paths : List String) : List String :=
  paths.flatMap fun path => (candidates walk fs o selection path).1

def allFailures (paths : List String) : List SkipReason :=
  paths.flatMap fun path => (candidates walk fs o selection path).2

end

lemma accounts_foldl (paths : List String) :
    Accounts fs o selection (allCandidates walk fs o selection paths) (allFailures walk fs o selection paths)
      (allCandidates walk fs o selection paths).length
      (paths.foldl (ScanState.addPath walk fs o selection (.ofPaths fs o.excludes)) {}) := by
  -- Over the paths, from any state that accounts for what came before.
  have hrun : ∀ (found : List String) (failed : List SkipReason) (s : ScanState),
      Accounts fs o selection found failed found.length s →
      Accounts fs o selection (found ++ allCandidates walk fs o selection paths)
        (failed ++ allFailures walk fs o selection paths) (found ++ allCandidates walk fs o selection paths).length
        (paths.foldl (ScanState.addPath walk fs o selection (.ofPaths fs o.excludes)) s) := by
    induction paths with
    | nil => intro found failed s h; simpa [allCandidates, allFailures] using h
    | cons path paths ih =>
      intro found failed s h
      simpa [allCandidates, allFailures] using ih _ _ _ (h.addPath path)
  exact hrun [] [] {} Holds.empty

end CodeClones.Files
