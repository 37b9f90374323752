import Mathlib
import CodeClones.Files.Scan

/-! Dots in front of a path make it longer, but lead nowhere. -/

namespace CodeClones.Files

def dotted : ℕ → List Char → List Char
  | 0, path => path
  | n + 1, path => '.' :: '/' :: dotted n path

variable {δ : Type} {fs : FileSystemOf δ} {path : List Char} {n : ℕ}

lemma dotted_append (n : ℕ) (path rest : List Char) : dotted n path ++ rest = dotted n (path ++ rest) := by
  induction n with
  | zero => rfl
  | succ n ih => rw [dotted, dotted, List.cons_append, List.cons_append, ih]

lemma dotted_dotted (m n : ℕ) (path : List Char) : dotted m (dotted n path) = dotted (m + n) path := by
  induction m with
  | zero => rw [Nat.zero_add, dotted]
  | succ m ih => rw [Nat.succ_add, dotted, dotted, ih]

lemma enter_dotted (n : ℕ) (name : String) : enter (dotted n ['.']) name = dotted (n + 1) name.toList := by
  have hlast : (dotted n ['.']).getLast? = some '.' := by
    rw [show ['.'] = [] ++ ['.'] from rfl, ← dotted_append, List.getLast?_concat]
  have henter : enter (dotted n ['.']) name = dotted n ['.'] ++ '/' :: name.toList := by
    rw [enter, hlast]
    rfl
  rw [henter, dotted_append, ← dotted_dotted]
  rfl

lemma utf8ByteSize_dotted (n : ℕ) (path : List Char) :
    (String.ofList (dotted n path)).utf8ByteSize = 2 * n + (String.ofList path).utf8ByteSize := by
  simp only [String.utf8ByteSize_ofList]
  induction n with
  | zero => simp [dotted]
  | succ n ih =>
    rw [dotted, String.utf8Len_cons, String.utf8Len_cons, ih]
    have h : '.'.utf8Size = 1 ∧ '/'.utf8Size = 1 := by decide
    omega

lemma contains_dotted (h : path.contains '\x00' = false) : (dotted n path).contains '\x00' = false := by
  induction n with
  | zero => exact h
  | succ n ih =>
    rw [dotted, List.contains_cons, List.contains_cons, ih]
    decide

lemma splitOn_dotted (n : ℕ) (path : List Char) :
    (dotted n path).splitOn '/' = List.replicate n ['.'] ++ path.splitOn '/' := by
  induction n with
  | zero => rfl
  | succ n ih =>
    rw [dotted, List.splitOn_cons_eq_if_modifyHead, List.splitOn_cons_eq_if_modifyHead, ih]
    rfl

lemma pieces_dotted (n : ℕ) (path : List Char) :
    pieces (String.ofList (dotted n path)) = List.replicate n "." ++ pieces (String.ofList path) := by
  rw [pieces, pieces, String.toList_ofList, String.toList_ofList, splitOn_dotted, List.map_append, List.map_replicate]

lemma isAbsolute_dotted (h : isAbsolute (String.ofList path) = false) :
    isAbsolute (String.ofList (dotted n path)) = false := by
  cases n with
  | zero => exact h
  | succ n => simp [dotted, isAbsolute]

lemma components_dotted (n : ℕ) (path : List Char) : components (String.ofList (dotted (n + 1) path)) =
    .current :: (pieces (String.ofList path)).filterMap component? := by
  have habsolute : isAbsolute (String.ofList (dotted (n + 1) path)) = false := by simp [dotted, isAbsolute]
  have hdots : (List.replicate n ".").filterMap component? = [] := by
    rw [List.filterMap_replicate_of_none]
    decide
  rw [components, habsolute, pieces_dotted, List.replicate_succ, List.cons_append]
  simp [hdots]

namespace FileSystemOf

variable {jump : Trail δ → String → List String → Except (AccessErrorOf δ) (Trail δ)} {t : Trail δ} {links : ℕ}
  {front rest : List String}

lemma descend_dots (hrest : rest ≠ [])
    (hjump : ∀ t target front,
      jump t target (front ++ (List.replicate n "." ++ rest)) = jump t target (front ++ rest)) :
    fs.descend jump t (front ++ (List.replicate n "." ++ rest)) = fs.descend jump t (front ++ rest) := by
  induction front generalizing t with
  | nil =>
    clear hjump
    induction n with
    | zero => rfl
    | succ n ih =>
      rw [List.nil_append, List.nil_append] at ih ⊢
      rw [List.replicate_succ, List.cons_append, descend]
      obtain ⟨piece, others, rfl⟩ := List.exists_cons_of_ne_nil hrest
      cases he : (fs.nodeAt t).search with
      | error cause => rw [descend, he]
      | ok entries => simpa using ih
  | cons piece front ih =>
    rw [List.cons_append, List.cons_append, descend, descend]
    simp only [ih, hjump]

lemma follow_dots (hrest : rest ≠ []) :
    fs.follow links t (front ++ (List.replicate n "." ++ rest)) = fs.follow links t (front ++ rest) := by
  induction links generalizing t front with
  | zero => exact descend_dots hrest fun _ _ _ => rfl
  | succ links ih =>
    refine descend_dots hrest fun t target front => ?_
    rw [← List.append_assoc, ih, List.append_assoc]

lemma locate_dotted (hpath : path ≠ []) (hnull : path.contains '\x00' = false)
    (habsolute : isAbsolute (String.ofList path) = false) :
    fs.locate (String.ofList (dotted n path)) = fs.locate (String.ofList path) := by
  have hne : dotted n path ≠ [] := by
    cases n with
    | zero => exact hpath
    | succ n => exact List.cons_ne_nil _ _
  have hpieces : pieces (String.ofList path) ≠ [] := by
    rw [pieces]
    exact fun h => List.splitOn_ne_nil _ _ (List.map_eq_nil_iff.mp h)
  simp only [locate, String.toList_ofList, contains_dotted hnull, hnull, isAbsolute_dotted habsolute, habsolute,
    pieces_dotted, Bool.false_eq_true, if_false, follow_dots hpieces]
  rw [if_neg (by simpa using hne), if_neg (by simpa using hpath)]

end FileSystemOf

end CodeClones.Files
