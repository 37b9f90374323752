import Mathlib.Data.List.Basic
import Mathlib.Data.List.Induction
import Mathlib.Order.Basic
import Mathlib.Tactic.Common
import CodeClones.Access

/-! Computations that use operations for arguments they are meant for. In every monad they give a result. -/

namespace CodeClones

variable {m : Type → Type} [Monad m] [LawfulMonad m] {α β : Type}

def Gives (x : m α) (P : α → Prop) : Prop := ∃ a, x = pure a ∧ P a

namespace Gives

variable {x : m α} {P Q : α → Prop} {R : β → Prop} {a : α} {b : β}

omit [LawfulMonad m] in
lemma pure (h : P a) : Gives (pure a : m α) P := ⟨a, rfl, h⟩

omit [LawfulMonad m] in
lemma imp (h : Gives x P) (hq : ∀ a, P a → Q a) : Gives x Q := by
  obtain ⟨a, rfl, ha⟩ := h
  exact ⟨a, rfl, hq a ha⟩

lemma bind {f : α → m β} (h : Gives x P) (hf : ∀ a, P a → Gives (f a) R) : Gives (x >>= f) R := by
  obtain ⟨a, rfl, ha⟩ := h
  rw [pure_bind]
  exact hf a ha

lemma foldlM {f : β → α → m β} {s : List α} {I : List α → β → Prop} (h₀ : I [] b)
    (h : ∀ done a rest b, s = done ++ a :: rest → I done b → Gives (f b a) (I (done ++ [a]))) :
    Gives (s.foldlM f b) (I s) := by
  induction s using List.reverseRecOn with
  | nil => exact pure h₀
  | append_singleton s a ih =>
    rw [List.foldlM_append]
    apply (ih fun done a' rest b hs => h done a' (rest ++ [a]) b (by simp [hs])).bind
    intro b hb
    rw [List.foldlM_cons]
    apply (h s a [] b rfl hb).bind
    intro b hb
    exact pure hb

lemma foldlM_range' {f : β → ℕ → m β} {start n : ℕ} {I : ℕ → β → Prop} (h₀ : I start b)
    (h : ∀ i b, start ≤ i → i < start + n → I i b → Gives (f b i) (I (i + 1))) :
    Gives ((List.range' start n).foldlM f b) (I (start + n)) := by
  induction n with
  | zero => exact pure h₀
  | succ n ih =>
    rw [List.range'_concat, List.foldlM_append, Nat.one_mul]
    apply (ih fun i b hs hi => h i b hs (by omega)).bind
    intro b hb
    rw [List.foldlM_cons]
    apply (h _ b (Nat.le_add_right _ _) (by omega) hb).bind
    intro b hb
    exact pure hb

lemma foldlM_range {f : β → ℕ → m β} {n : ℕ} {I : ℕ → β → Prop} (h₀ : I 0 b)
    (h : ∀ i b, i < n → I i b → Gives (f b i) (I (i + 1))) : Gives ((List.range n).foldlM f b) (I n) := by
  have hr : Gives ((List.range' 0 n).foldlM f b) (I (0 + n)) := foldlM_range' h₀ fun i b _ hi => h i b (by omega)
  rwa [Nat.zero_add, ← List.range_eq_range'] at hr

end Gives

lemma foldlM_eq_pure {f : β → α → m β} {g : β → α → β} {s : List α} {b : β}
    (h : ∀ a ∈ s, ∀ b, f b a = pure (g b a)) : s.foldlM f b = pure (s.foldl g b) := by
  induction s generalizing b with
  | nil => exact List.foldlM_nil
  | cons a s ih =>
    rw [List.foldlM_cons, h a List.mem_cons_self, pure_bind, List.foldl_cons]
    exact ih fun a' ha => h a' (List.mem_cons_of_mem a ha)

lemma mapM_eq_pure {f : α → m β} {g : α → β} {s : List α} (h : ∀ a ∈ s, f a = pure (g a)) :
    s.mapM f = pure (s.map g) := by
  induction s with
  | nil => exact List.mapM_nil
  | cons a s ih =>
    rw [List.mapM_cons, h a List.mem_cons_self, ih fun a' ha => h a' (List.mem_cons_of_mem a ha), pure_bind,
      pure_bind, List.map_cons]

variable [Access m] {xs : Array ℕ} {i a b : ℕ}

omit [LawfulMonad m] in
lemma require_eq {p : Prop} [Decidable p] (h : p) (f : Fault) : (require p f : m Unit) = pure () := if_pos h

lemma read_eq (h : i < xs.size) : (read xs i : m ℕ) = pure (xs.getD i 0) := by
  rw [read, require_eq h, pure_bind]
  rfl

lemma read_eq_getElem [Inhabited α] {ys : Array α} (h : i < ys.size) : (read ys i : m α) = pure ys[i] := by
  rw [read, require_eq h, pure_bind, Array.getD_eq_getD_getElem?, Array.getElem?_eq_getElem h, Option.getD_some]

lemma write_eq (h : i < xs.size) (a : ℕ) : (write xs i a : m _) = pure (xs.setIfInBounds i a) := by
  rw [write, require_eq h, pure_bind]

lemma slice_eq (hab : a ≤ b) (hb : b ≤ xs.size) : (slice xs a b : m _) = pure (xs.extract a b) := by
  rw [slice, require_eq ⟨hab, hb⟩, pure_bind]

lemma minus_eq (h : b ≤ a) : (minus a b : m ℕ) = pure (a - b) := by
  rw [minus, require_eq h, pure_bind]

lemma remaining_eq (h : b ≤ a) : (remaining a b : m ℕ) = pure (a - b) := by
  rw [remaining, require_eq h, pure_bind]

/-! ### Computations that may fail -/

variable {ε : Type}

def Same (x : ExceptT ε m α) (y : Except ε α) : Prop := ∃ a, x = pure a ∧ y = .ok a

namespace Same

omit [LawfulMonad m] [Access m] in
lemma pure (a : α) : Same (pure a : ExceptT ε m α) (.ok a) := ⟨a, rfl, rfl⟩

omit [Access m] in
lemma bind {x : ExceptT ε m α} {y : Except ε α} {f : α → ExceptT ε m β} {g : α → Except ε β} (h : Same x y)
    (hf : ∀ a, y = .ok a → Same (f a) (g a)) : Same (x >>= f) (y >>= g) := by
  obtain ⟨a, rfl, rfl⟩ := h
  rw [pure_bind]
  exact hf a rfl

omit [Access m] in
lemma mapM {f : α → ExceptT ε m β} {g : α → Except ε β} {s : List α} (h : ∀ a ∈ s, Same (f a) (g a)) :
    Same (s.mapM f) (s.mapM g) := by
  induction s with
  | nil => exact pure []
  | cons a s ih =>
    rw [List.mapM_cons, List.mapM_cons]
    apply (h a List.mem_cons_self).bind
    intro b _
    apply (ih fun a' ha => h a' (List.mem_cons_of_mem a ha)).bind
    intro t _
    exact pure (b :: t)

omit [Access m] in
lemma forM {f : α → ExceptT ε m Unit} {g : α → Except ε Unit} {s : List α} (h : ∀ a ∈ s, Same (f a) (g a)) :
    Same (s.forM f) (s.forM g) := by
  induction s with
  | nil => exact pure ()
  | cons a s ih =>
    rw [List.forM_eq_forM, List.forM_eq_forM, List.forM_cons, List.forM_cons]
    apply (h a List.mem_cons_self).bind
    intro _ _
    exact ih fun a' ha => h a' (List.mem_cons_of_mem a ha)

end Same

omit [Access m] in
lemma throw_bind (e : ε) (f : α → ExceptT ε m β) : (throw e >>= f : ExceptT ε m β) = throw e := by
  change (pure (.error e) >>= ExceptT.bindCont f : m _) = _
  rw [pure_bind]
  rfl

omit [Access m] in
lemma lift_pure (a : α) : (ExceptT.lift (pure a) : ExceptT ε m α) = pure a := by
  change (Except.ok <$> pure a : m _) = _
  rw [map_pure]
  rfl

lemma plain_pure (a : α) : plain (pure a : ExceptT ε Id α) = .ok a := rfl

lemma plain_throw (e : ε) : plain (throw e : ExceptT ε Id α) = .error e := rfl

lemma plain_monadLift (x : Except ε α) : plain (monadLift x) = x := rfl

lemma plain_lift (x : Id α) : plain (ExceptT.lift x : ExceptT ε Id α) = .ok x := rfl

lemma plain_adapt {ε' : Type} (f : ε → ε') (x : ExceptT ε Id α) :
    plain (ExceptT.adapt f x) = (plain x).mapError f :=
  rfl

lemma plain_bind (x : ExceptT ε Id α) (f : α → ExceptT ε Id β) :
    plain (x >>= f) = plain x >>= fun a => plain (f a) := by
  change Except ε α at x
  cases x <;> rfl

lemma plain_discard (x : ExceptT ε Id α) : plain (discard x) = discard (plain x) := by
  change Except ε α at x
  cases x <;> rfl

lemma plain_mapM (f : α → ExceptT ε Id β) (s : List α) : plain (s.mapM f) = s.mapM fun a => plain (f a) := by
  induction s with
  | nil => rfl
  | cons a s ih =>
    simp only [List.mapM_cons, plain_bind, ih]
    rfl

lemma plain_forM (f : α → ExceptT ε Id Unit) (s : List α) : plain (s.forM f) = s.forM fun a => plain (f a) := by
  induction s with
  | nil => rfl
  | cons a s ih =>
    simp only [List.forM_eq_forM] at ih
    simp only [List.forM_eq_forM, List.forM_cons, plain_bind, ih]

lemma plain_require (p : Prop) [Decidable p] (f : Fault) : plain (require p f : ExceptT ε Id Unit) = .ok () := by
  rw [require]
  split <;> rfl

lemma plain_minus (a b : ℕ) : plain (minus a b : ExceptT ε Id ℕ) = .ok (a - b) := by
  rw [minus, plain_bind, plain_require]
  rfl

lemma plain_slice (xs : Array ℕ) (a b : ℕ) : plain (slice xs a b : ExceptT ε Id _) = .ok (xs.extract a b) := by
  rw [slice, plain_bind, plain_require]
  rfl

end CodeClones
