import Mathlib
import CodeClones.Files.Scan

/-! What excludes leave out, compared with what lies at or below them: once every path is made absolute and its dots
are resolved, by the names alone or in the file system. -/

namespace CodeClones.Files

def Component.move (names : List String) : Component → List String
  | root => []
  | current => names
  | parent => names.dropLast
  | name text => names ++ [text]

def settle (names : List String) (path : List Component) : List String := path.foldl Component.move names

/-- Whether a path leads, on its way, out of the directory that it begins in, of which it has entered some
directories already. -/
def leaves : (depth : ℕ) → List Component → Bool
  | _, [] => false
  | _, .root :: _ => true
  | 0, .parent :: _ => true
  | depth + 1, .parent :: path => leaves depth path
  | depth, .current :: path => leaves depth path
  | depth, .name _ :: path => leaves (depth + 1) path

variable {δ : Type} {fs : FileSystemOf δ} {excludes : List String} {path : String} {names inner : List String}
  {rest : List Component}

lemma settle_append (path rest : List Component) : settle names (path ++ rest) = settle (settle names path) rest :=
  List.foldl_append

lemma settle_lexical (path : List Component) : settle names (lexical path) = settle names path := by
  induction path generalizing names with
  | nil => rfl
  | cons c path ih => cases c <;> exact ih

lemma prefix_settle (h : leaves inner.length rest = false) : names <+: settle (names ++ inner) rest := by
  induction rest generalizing inner with
  | nil => exact List.prefix_append names inner
  | cons c rest ih =>
    cases c with
    | root => exact absurd h (by simp [leaves])
    | current => exact ih h
    | parent =>
      cases inner using List.reverseRecOn with
      | nil => exact absurd h (by simp [leaves])
      | append_singleton inner name =>
        rw [List.length_append, List.length_singleton, leaves] at h
        have he : Component.parent.move (names ++ (inner ++ [name])) = names ++ inner := by
          rw [Component.move, ← List.append_assoc, List.dropLast_concat]
        rw [settle, List.foldl_cons, he]
        exact ih h
    | name text =>
      have he : (Component.name text).move (names ++ inner) = names ++ (inner ++ [text]) := by
        rw [Component.move, List.append_assoc]
      rw [settle, List.foldl_cons, he]
      exact ih (by simpa [leaves] using h)

namespace FileSystemOf

def absolute (fs : FileSystemOf δ) (path : String) : List String := settle fs.workingDirectory (components path)

end FileSystemOf

def sample : FileSystem where
  entries := [("work", .directory [
    ("a", .directory [("A.java", .file "A".toUTF8)]),
    ("b", .directory [("B.java", .file "B".toUTF8), ("l", .link "../a")])])]
  workingDirectory := ["work"]

namespace Excludes

def LeadsOut (exclude path : String) : Prop :=
  ∃ rest, Files.lexical (components path) = Files.lexical (components exclude) ++ rest ∧ leaves 0 rest = true

lemma contains_iff : (ofPaths fs excludes).contains fs path = true ↔
    (∃ x ∈ excludes, Files.lexical (components x) <+: Files.lexical (components path)) ∨
    ∃ names, fs.canonical? path = some names ∧ ∃ x ∈ excludes, ∃ top, fs.canonical? x = some top ∧ top <+: names := by
  rw [contains, Bool.or_eq_true, ofPaths, Option.any_eq_true]
  refine or_congr ?_ (exists_congr fun names => and_congr_right fun _ => ?_)
  · simp only [List.any_map, List.any_eq_true, Function.comp_apply, List.isPrefixOf_iff_prefix]
  · simp only [List.any_eq_true, List.mem_filterMap, List.isPrefixOf_iff_prefix]
    constructor
    · rintro ⟨top, ⟨x, hx, htop⟩, hle⟩
      exact ⟨x, hx, top, htop, hle⟩
    · rintro ⟨x, hx, top, htop, hle⟩
      exact ⟨top, ⟨x, hx, htop⟩, hle⟩

lemma absolute_prefix_or_leadsOut {exclude : String}
    (h : Files.lexical (components exclude) <+: Files.lexical (components path)) :
    fs.absolute exclude <+: fs.absolute path ∨ LeadsOut exclude path := by
  obtain ⟨rest, he⟩ := h
  cases hl : leaves 0 rest with
  | true => exact .inr ⟨rest, he.symm, hl⟩
  | false =>
    left
    have hbelow : fs.absolute exclude <+: settle (fs.absolute exclude ++ []) rest := prefix_settle hl
    rw [List.append_nil, FileSystemOf.absolute, ← settle_lexical, ← settle_append, he] at hbelow
    simpa only [FileSystemOf.absolute, settle_lexical] using hbelow

/-- Excludes leave out all that lies at or below one of them in the file system, and of the rest only what does so by
the names alone or what begins like one of them and leads out of it. -/
theorem contains_of_below (excludes : List String) (h : fs.canonical? path = some names) :
    ((∃ x ∈ excludes, ∃ top, fs.canonical? x = some top ∧ top <+: names) →
      (ofPaths fs excludes).contains fs path = true) ∧
    ((ofPaths fs excludes).contains fs path = true →
      (∃ x ∈ excludes, ∃ top, fs.canonical? x = some top ∧ top <+: names) ∨
      (∃ x ∈ excludes, fs.absolute x <+: fs.absolute path) ∨ ∃ x ∈ excludes, LeadsOut x path) := by
  refine ⟨fun hbelow => contains_iff.mpr (.inr ⟨names, h, hbelow⟩), fun hin => ?_⟩
  rcases contains_iff.mp hin with ⟨x, hx, hle⟩ | ⟨names', h', hbelow⟩
  · rcases absolute_prefix_or_leadsOut hle with hbelow | hout
    · exact .inr (.inl ⟨x, hx, hbelow⟩)
    · exact .inr (.inr ⟨x, hx, hout⟩)
  · obtain rfl : names = names' := Option.some.inj (h.symm.trans h')
    exact .inl hbelow

theorem contains_of_below_link : sample.canonical? "a/../b/l/A.java" = some ["work", "a", "A.java"] ∧
    (ofPaths sample ["b/../a"]).contains sample "a/../b/l/A.java" = true ∧
    ((∃ x ∈ ["b/../a"], ∃ top, sample.canonical? x = some top ∧ top <+: ["work", "a", "A.java"]) ∨
      (∃ x ∈ ["b/../a"], sample.absolute x <+: sample.absolute "a/../b/l/A.java") ∨
      ∃ x ∈ ["b/../a"], LeadsOut x "a/../b/l/A.java") := by
  have h : sample.canonical? "a/../b/l/A.java" = some ["work", "a", "A.java"] := by decide +kernel
  have htop : sample.canonical? "b/../a" = some ["work", "a"] := by decide +kernel
  obtain ⟨hall, honly⟩ := contains_of_below ["b/../a"] h
  have hin := hall ⟨_, List.mem_singleton_self _, _, htop, ["A.java"], rfl⟩
  exact ⟨h, hin, honly hin⟩

theorem contains_leadingOut : sample.canonical? "a/../b/B.java" = some ["work", "b", "B.java"] ∧
    (∀ walk : Walker Empty, (candidates walk sample {} ⟨.builtin, none⟩ "a/../b/B.java").1 = ["a/../b/B.java"]) ∧
    (ofPaths sample ["a"]).contains sample "a/../b/B.java" = true ∧
    sample.canonical? "a" = some ["work", "a"] ∧ ¬["work", "a"] <+: ["work", "b", "B.java"] ∧
    ¬sample.absolute "a" <+: sample.absolute "a/../b/B.java" := by
  have hfile : sample.isFile "a/../b/B.java" = true := by decide +kernel
  refine ⟨by decide +kernel, fun walk => ?_, by decide +kernel⟩
  rw [candidates, if_pos hfile]

end Excludes

end CodeClones.Files
