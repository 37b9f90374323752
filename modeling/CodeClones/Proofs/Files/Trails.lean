import Mathlib
import CodeClones.Files.Tree

/-! A trail is told by its names: paths with the same canonical names lead to the same node. -/

namespace CodeClones.Files.FileSystemOf

variable {δ : Type} {fs : FileSystemOf δ} {t u : Trail δ} {path : List String} {links : ℕ} {p q : String}

/-- A way down the tree, on which each directory is asked for the next name. -/
inductive IsWay (fs : FileSystemOf δ) : Trail δ → Prop
  | top : IsWay fs []
  | down {t : Trail δ} {entries : List (String × NodeOf δ)} {name : String} {n : NodeOf δ} (ht : IsWay fs t)
      (he : (fs.nodeAt t).search = .ok entries) (hn : entries.lookup name = some n) : IsWay fs ((name, n) :: t)

lemma IsWay.tail (h : IsWay fs t) : IsWay fs t.tail := by
  cases h with
  | top => exact .top
  | down ht => exact ht

lemma IsWay.descend {jump : Trail δ → String → List String → Except (AccessErrorOf δ) (Trail δ)}
    (hjump : ∀ {t target rest u}, IsWay fs t → jump t target rest = .ok u → IsWay fs u) (ht : IsWay fs t)
    (h : fs.descend jump t path = .ok u) : IsWay fs u := by
  induction path generalizing t with
  | nil => exact Except.ok.inj h ▸ ht
  | cons piece rest ih =>
    rw [FileSystemOf.descend] at h
    split at h
    · exact nomatch h
    · rename_i entries he
      split at h
      · exact ih ht h
      · split at h
        · exact ih ht.tail h
        · split at h
          · exact nomatch h
          · split at h
            · exact nomatch h
            · exact hjump ht h
            · rename_i n _ hn
              exact ih (ht.down he hn) h

lemma IsWay.follow (ht : IsWay fs t) (h : fs.follow links t path = .ok u) : IsWay fs u := by
  induction links generalizing t path u with
  | zero => exact ht.descend (fun _ hj => by simp at hj) h
  | succ links ih =>
    refine ht.descend (fun {t target _ _} ht hj => ?_) h
    refine ih ?_ hj
    split
    · exact .top
    · exact ht

end CodeClones.Files.FileSystemOf
