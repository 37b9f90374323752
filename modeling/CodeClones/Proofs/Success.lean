import Mathlib.Data.List.Forall2

/-! What a computation that succeeds tells about its parts. -/

namespace CodeClones.Success

variable {ε ε' α β : Type} {a : α} {b : β} {s : List α} {t : List β}

lemma bind_eq_ok {x : Except ε α} {f : α → Except ε β} : x >>= f = .ok b ↔ ∃ a, x = .ok a ∧ f a = .ok b := by
  cases x with
  | error e => simp [bind, Except.bind]
  | ok a => simp [bind, Except.bind]

lemma map_eq_ok {x : Except ε α} {f : α → β} : x.map f = .ok b ↔ ∃ a, x = .ok a ∧ f a = b := by
  cases x with
  | error e => simp [Except.map]
  | ok a => simp [Except.map]

lemma map_eq_error {x : Except ε α} {f : α → β} {e : ε} : x.map f = .error e ↔ x = .error e := by
  cases x with
  | error e => simp [Except.map]
  | ok a => simp [Except.map]

lemma mapError_eq_ok {x : Except ε α} {f : ε → ε'} : x.mapError f = .ok a ↔ x = .ok a := by
  cases x with
  | error e => simp [Except.mapError]
  | ok a => simp [Except.mapError]

lemma mapM_eq_ok {f : α → Except ε β} : s.mapM f = .ok t ↔ List.Forall₂ (fun a b => f a = .ok b) s t := by
  induction s generalizing t with
  | nil => simp [pure, Except.pure, eq_comm]
  | cons a s ih =>
    simp only [List.mapM_cons, bind_eq_ok, List.forall₂_cons_left_iff, ih]
    constructor
    · rintro ⟨b, hb, u, hu, he⟩
      exact ⟨b, u, hb, hu, (Except.ok.inj he).symm⟩
    · rintro ⟨b, u, hb, hu, rfl⟩
      exact ⟨b, hb, u, hu, rfl⟩

lemma mapM_eq_error {f : α → Except ε β} {e : ε} {k : ℕ} (hk : s[k]? = some a) (ha : f a = .error e)
    (h : ∀ i < k, ∀ a', s[i]? = some a' → ∃ b, f a' = .ok b) : s.mapM f = .error e := by
  induction s generalizing k with
  | nil => simp at hk
  | cons a' s ih =>
    rw [List.mapM_cons]
    cases k with
    | zero =>
      obtain rfl : a' = a := by simpa using hk
      rw [ha]
      rfl
    | succ k =>
      obtain ⟨b, hb⟩ := h 0 (Nat.zero_lt_succ k) a' rfl
      rw [hb, ih (by simpa using hk) fun i hi a'' ha'' => h (i + 1) (Nat.succ_lt_succ hi) a'' (by simpa using ha'')]
      rfl

lemma map_toOption_eq {γ : Type*} {x : Except ε α} {y : Except ε' α} {F : α → γ}
    (h : ∀ a, x = .ok a → ∃ b, y = .ok b ∧ F a = F b) (h' : ∀ b, y = .ok b → ∃ a, x = .ok a) :
    x.toOption.map F = y.toOption.map F := by
  cases x with
  | ok a =>
    obtain ⟨b, rfl, hab⟩ := h a rfl
    exact congrArg some hab
  | error e =>
    cases y with
    | ok b => simpa using h' b rfl
    | error e' => rfl

lemma exists_mapM_iff {f : α → Except ε β} : (∃ t, s.mapM f = .ok t) ↔ ∀ a ∈ s, ∃ b, f a = .ok b := by
  simp only [mapM_eq_ok]
  induction s with
  | nil => simp
  | cons a s ih =>
    rw [List.forall_mem_cons, ← ih]
    constructor
    · rintro ⟨t, h⟩
      obtain ⟨b, t, hb, ht, rfl⟩ := List.forall₂_cons_left_iff.mp h
      exact ⟨⟨b, hb⟩, t, ht⟩
    · rintro ⟨⟨b, hb⟩, t, ht⟩
      exact ⟨b :: t, .cons hb ht⟩

lemma forall₂_of_mapM {γ : Type} {f : α → Except ε β} {g : α → Except ε' γ} {u : List γ} {R : β → γ → Prop}
    (hf : s.mapM f = .ok t) (hg : s.mapM g = .ok u)
    (hR : ∀ a ∈ s, ∀ b c, f a = .ok b → g a = .ok c → R b c) : List.Forall₂ R t u := by
  rw [mapM_eq_ok] at hf hg
  induction hf generalizing u with
  | nil =>
    cases hg
    exact .nil
  | @cons a b s t hab _ ih =>
    obtain ⟨c, u, hac, hu, rfl⟩ := List.forall₂_cons_left_iff.mp hg
    exact .cons (hR a List.mem_cons_self b c hab hac) (ih hu fun a' ha => hR a' (List.mem_cons_of_mem a ha))

variable {R : α → β → Prop}

lemma forall₂_imp_of_mem {S : α → β → Prop} (h : List.Forall₂ R s t) (hR : ∀ a ∈ s, ∀ b ∈ t, R a b → S a b) :
    List.Forall₂ S s t := by
  induction h with
  | nil => exact .nil
  | @cons a b s t hab _ ih =>
    refine .cons (hR a List.mem_cons_self b List.mem_cons_self hab) (ih fun a ha b hb => ?_)
    exact hR a (List.mem_cons_of_mem _ ha) b (List.mem_cons_of_mem _ hb)

lemma exists_of_mem_left (h : List.Forall₂ R s t) (ha : a ∈ s) : ∃ b ∈ t, R a b := by
  induction h with
  | nil => exact absurd ha List.not_mem_nil
  | @cons a' b s t hab _ ih =>
    rcases List.mem_cons.mp ha with rfl | ha
    · exact ⟨b, List.mem_cons_self, hab⟩
    · obtain ⟨b', hb, hr⟩ := ih ha
      exact ⟨b', List.mem_cons_of_mem _ hb, hr⟩

lemma exists_of_mem_right (h : List.Forall₂ R s t) (hb : b ∈ t) : ∃ a ∈ s, R a b := by
  obtain ⟨a, ha, hr⟩ := exists_of_mem_left h.flip hb
  exact ⟨a, ha, hr⟩

lemma exists_getElem?_of_forall₂ {k : ℕ} (h : List.Forall₂ R s t) (ha : s[k]? = some a) :
    ∃ b, t[k]? = some b ∧ R a b := by
  induction h generalizing k with
  | nil => simp at ha
  | @cons a' b s t hab _ ih =>
    cases k with
    | zero =>
      obtain rfl : a' = a := by simpa using ha
      exact ⟨b, rfl, hab⟩
    | succ k => simpa using ih (by simpa using ha)

lemma map_eq_of_forall₂ {γ : Type*} {F : α → γ} {G : β → γ} (h : List.Forall₂ R s t)
    (he : ∀ a b, R a b → F a = G b) : s.map F = t.map G := by
  have heq := List.forall₂_map_left_iff.mpr (List.forall₂_map_right_iff.mpr (h.imp he))
  rwa [List.forall₂_eq_eq_eq] at heq

lemma eq_map_of_mapM {γ : Type} {f : α → Except ε β} {g : α → Except ε' γ} {u : List γ} {F : β → γ}
    (hf : s.mapM f = .ok t) (hg : s.mapM g = .ok u) (hF : ∀ a ∈ s, ∀ b c, f a = .ok b → g a = .ok c → c = F b) :
    u = t.map F := by
  rw [← List.map_id u]
  exact (map_eq_of_forall₂ (forall₂_of_mapM hf hg hF) fun b c hbc => hbc.symm).symm

lemma map_find?_of_forall₂ {γ : Type*} {p : α → Bool} {q : β → Bool} {F : α → γ} {G : β → γ} (h : List.Forall₂ R s t)
    (hp : ∀ a b, R a b → p a = q b) (he : ∀ a b, R a b → F a = G b) : (s.find? p).map F = (t.find? q).map G := by
  induction h with
  | nil => rfl
  | @cons a b s t hab _ ih =>
    by_cases ha : p a = true
    · rw [List.find?_cons_of_pos ha, List.find?_cons_of_pos (hp a b hab ▸ ha), Option.map_some, Option.map_some,
        he a b hab]
    · rw [List.find?_cons_of_neg ha, List.find?_cons_of_neg (hp a b hab ▸ ha), ih]

lemma pairwise_of_forall₂ {P : α → α → Prop} {Q : β → β → Prop} (h : List.Forall₂ R s t) (hs : s.Pairwise P)
    (hq : ∀ a a' b b', R a b → R a' b' → P a a' → Q b b') : t.Pairwise Q := by
  induction h with
  | nil => exact List.Pairwise.nil
  | @cons a b s t hab hst ih =>
    obtain ⟨ha, hs⟩ := List.pairwise_cons.mp hs
    refine List.pairwise_cons.mpr ⟨fun b' hb => ?_, ih hs⟩
    obtain ⟨a', ha', hr⟩ := exists_of_mem_right hst hb
    exact hq a a' b b' hab hr (ha a' ha')

end CodeClones.Success
