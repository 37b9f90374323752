import Mathlib.Data.List.TakeWhile
import CodeClones.Proofs.Source.Extents

/-! What a reading tells of the text at whose head it is made: how much of the text it takes, and what the image
of a token shows. -/

namespace CodeClones

def Kind.imageOf (kind : Kind) (text : List Char) : List Char :=
  if kind = .metadata then text.filter fun c => !Text.isBlank c else text

namespace Source

variable {l : Language} {lineStart : Bool} {n k depth : ℕ} {text rest behind : List Char} {c opening closing : Char}
  {d : Draft} {kind : Kind} {r : Reading} {f : Failure} {word : String}

/-! ### Directives -/

lemma continuationLength_le (rest : List Char) : continuationLength rest ≤ rest.length := by
  unfold continuationLength
  split <;> simp
  omega

lemma takes_preprocessorLine (hl : l.lineComment = some ['/', '/']) (spaced : Bool) (d : Draft) (text : List Char) :
    Takes l d.more text (preprocessorLine spaced d text).more := by
  fun_induction preprocessorLine spaced d text with
  | case1 => exact .all l _ []
  | case2 spaced d c rest h =>
    refine .none (h.elim (fun h => .inr (.inl (by rw [h]; rfl))) fun h => .inr (.inr ?_)) _
    rwa [Language.opensLineComment, hl]
  | case3 spaced d c rest h h' ih =>
    refine .cons (.of_drop ?_ (continuationLength_le rest))
    rwa [Nat.add_assoc]
  | case4 spaced d c rest h h' h'' ih => exact .cons ih
  | case5 spaced d c rest h h' h'' ih => exact .cons ih

lemma quotedLength_le (quote : Char) (n reach : ℕ) (text : List Char) (h : reach ≤ n) :
    (quotedLength quote n reach text).1 ≤ n + text.length ∧
      (quotedLength quote n reach text).2 ≤ (quotedLength quote n reach text).1 := by
  fun_induction quotedLength quote n reach text with
  | case1 => simpa using h
  | case2 => simpa using h
  | case3 => simp
  | case4 => simp
  | case5 n reach e rest h₁ h₂ ih =>
    have := ih (by omega)
    simp only [List.length_cons]
    omega
  | case6 => simp
  | case7 n reach c rest h₁ h₂ h₃ ih =>
    have := ih (by omega)
    simp only [List.length_cons]
    omega

lemma takes_statement (l : Language) (depth : ℕ) (spaced : Bool) (d : Draft) (text : List Char) :
    Takes l d.more text (statement l depth spaced d text).more := by
  fun_induction statement l depth spaced d text with
  | case1 => exact .all l _ []
  | case2 depth spaced d c rest h =>
    exact .none (h.2.elim (fun h => .inr (.inl (by rw [h]; rfl))) fun h => .inr (.inr h)) _
  | case3 depth spaced d c rest h h' ih =>
    obtain ⟨rest, rfl⟩ := List.head?_eq_some_iff.mp h'.2
    exact .append (s := [c, '\n']) ih
  | case4 depth spaced d c rest h h' h'' ih => exact .cons ih
  | case5 => exact .dark (endsDark_singleton (by simp_all)) _ _
  | case6 depth spaced d c rest h₁ h₂ h₃ h₄ h₅ m reach hm ih =>
    have hle := (quotedLength_le c 0 0 rest (Nat.le_refl 0)).1
    rw [hm, Nat.zero_add] at hle
    refine .cons (.of_drop ?_ hle)
    simpa [Draft.keepText, Draft.keep, Nat.min_eq_left hle] using ih
  | case7 depth spaced d c rest h₁ h₂ h₃ h₄ h₅ ih => exact .cons ih

def Draft.ReachesText (d : Draft) : Prop := 0 < d.reach ∧ d.reach ≤ d.more + 1

lemma Draft.ReachesText.skip (h : d.ReachesText) (n : ℕ) : (d.skip n).ReachesText := by
  unfold Draft.ReachesText Draft.skip at *
  dsimp only
  omega

lemma Draft.reachesText_keep (d : Draft) (spaced : Bool) (c : Char) : (d.keep spaced c).ReachesText := by
  simp [Draft.ReachesText, Draft.keep]

lemma reachesText_preprocessorLine (spaced : Bool) (d : Draft) (text : List Char) (h : d.ReachesText) :
    (preprocessorLine spaced d text).ReachesText := by
  fun_induction preprocessorLine spaced d text with
  | case1 => exact h
  | case2 => exact h
  | case3 spaced d c rest _ _ ih => exact ih (h.skip _)
  | case4 spaced d c rest _ _ _ ih => exact ih (h.skip _)
  | case5 spaced d c rest _ _ _ ih => exact ih (d.reachesText_keep spaced c)

lemma reachesText_statement (l : Language) (depth : ℕ) (spaced : Bool) (d : Draft) (text : List Char)
    (h : d.ReachesText) : (statement l depth spaced d text).ReachesText := by
  fun_induction statement l depth spaced d text with
  | case1 => exact h
  | case2 => exact h
  | case3 depth spaced d c rest _ _ ih => exact ih (h.skip _)
  | case4 depth spaced d c rest _ _ _ ih => exact ih (h.skip _)
  | case5 depth spaced d c rest => exact d.reachesText_keep spaced c
  | case6 depth spaced d c rest h₁ h₂ h₃ h₄ h₅ m reach hm ih =>
    refine ih ?_
    have hle := quotedLength_le c 0 0 rest (Nat.le_refl 0)
    rw [hm, Nat.zero_add] at hle
    simp only [Draft.ReachesText, Draft.keepText, Draft.keep, List.length_take, Nat.min_eq_left hle.1]
    omega
  | case7 depth spaced d c rest _ _ _ _ _ ih => exact ih (d.reachesText_keep spaced c)

/-! ### Lengths -/

/-- A length that is measured behind `n` characters is one that a construct can have, and a failure is inside the
text. -/
def Measures (l : Language) (n : ℕ) (text : List Char) : Except Failure ℕ → Prop
  | .ok k => Takes l n text k
  | .error f => f.offset ≤ n + text.length

namespace Measures

variable {x : Except Failure ℕ}

lemma cons (h : Measures l (n + 1) rest x) : Measures l n (c :: rest) x := by
  cases x with
  | ok m => exact Takes.cons h
  | error f => exact Nat.le_trans h (by simp; omega)

lemma of_drop (h : Measures l (n + k) (text.drop k) x) (hk : k ≤ text.length) : Measures l n text x := by
  cases x with
  | ok m => exact Takes.of_drop h hk
  | error f => exact Nat.le_trans h (by simp; omega)

lemma map_add (h : Measures l 0 text x) (n : ℕ) : Measures l n text (x.map (n + ·)) := by
  cases x with
  | ok m =>
    have := Takes.shift h n
    rwa [Nat.zero_add, Nat.add_comm] at this
  | error f => exact Nat.le_trans h (by omega)

end Measures

lemma Extent.measures_settle {e : Extent} (h : Takes l n text e.length) (strict : Bool) (fault : Fault) :
    Measures l n text (e.settle strict fault) := by
  cases e with
  | closed m => exact h
  | unclosed m =>
    cases strict with
    | false => exact h
    | true => exact Nat.zero_le _

lemma measures_balancedLength (hl : l ∈ Language.builtin) (hc : Text.isBlank closing = false) (opening : Char)
    (depth n : ℕ) (text : List Char) : Measures l n text (balancedLength l opening closing depth n text) := by
  have hquoted : ∀ c rest, l.quotes.contains c = true →
      (Extent.literal (l.stringDelimiter c) 0 rest).length ≤ rest.length := fun c rest hq => by
    simpa using (Extent.takes_literal l (d := l.stringDelimiter c) (isBlank_of_quote hl hq) 0 rest).le.2
  fun_induction balancedLength l opening closing depth n text with
  | case1 => exact Nat.zero_le _
  | case2 => exact Takes.all l _ []
  | case3 depth n c rest hq k hk ih => exact .cons (ih.of_drop (by simpa [hk, Extent.length] using hquoted c rest hq))
  | case4 depth n c rest =>
    simp only [Measures, List.length_cons]
    omega
  | case5 depth n c rest hq k hk _ ih => exact .cons (ih.of_drop (by simpa [hk, Extent.length] using hquoted c rest hq))
  | case6 depth n rest _ ih => exact .cons ih
  | case7 depth n rest => exact Takes.dark (endsDark_singleton hc) n rest
  | case8 depth n rest _ _ _ ih => exact .cons ih
  | case9 depth n c rest _ _ _ ih => exact .cons ih

lemma isBlank_of_continuesWord (h : l.continuesWord c = true) : Text.isBlank c = false := by
  cases hb : Text.isBlank c with
  | false => rfl
  | true => exact absurd h (by simp [Breaks.continuesWord (.inl hb)])

lemma takes_of_forall (l : Language) {body : List Char} (hb : ∀ x ∈ body, Text.isBlank x = false)
    (hc : Text.isBlank c = false) (behind : List Char) : Takes l 0 (c :: (body ++ behind)) (body.length + 1) := by
  simpa using Takes.dark (endsDark_cons_of_forall hc hb) 0 behind

lemma takes_takeWhile (l : Language) {p : Char → Bool} (hp : ∀ x, p x = true → Text.isBlank x = false)
    (hc : Text.isBlank c = false) (rest : List Char) : Takes l 0 (c :: rest) ((rest.takeWhile p).length + 1) := by
  have h := takes_of_forall l (fun x (hx : x ∈ rest.takeWhile p) => hp x (List.mem_takeWhile_imp hx)) hc
    (rest.dropWhile p)
  rwa [List.takeWhile_append_dropWhile] at h

def IsNumeral (x : Char) : Prop := continuesNumber x = true ∨ isSign x = true ∨ x = '.'

lemma IsNumeral.isBlank {x : Char} (h : IsNumeral x) : Text.isBlank x = false := by
  cases hb : Text.isBlank x with
  | false => rfl
  | true =>
    rcases h with h | h | rfl
    · exact absurd h (by simp [Breaks.continuesNumber (l := .text) (.inl hb)])
    · exact absurd h (by simp [isSign, isBlank_ne (c := '+') hb (by decide), isBlank_ne (c := '-') hb (by decide)])
    · exact absurd hb (by decide)

lemma numberLength_eq (hex exponent : Bool) (n : ℕ) (text : List Char) : ∃ body behind, text = body ++ behind ∧
    numberLength hex exponent n text = n + body.length ∧ ∀ x ∈ body, IsNumeral x := by
  fun_induction numberLength hex exponent n text with
  | case1 n => exact ⟨[], [], rfl, rfl, by simp⟩
  | case2 exponent n c rest h ih =>
    obtain ⟨body, behind, rfl, hn, hb⟩ := ih
    refine ⟨c :: body, behind, rfl, by rw [hn, List.length_cons]; omega, List.forall_mem_cons.mpr ⟨?_, hb⟩⟩
    exact .inr (.inl (Bool.and_eq_true_iff.mp h).2)
  | case3 exponent n c rest h h' ih =>
    obtain ⟨body, behind, rfl, hn, hb⟩ := ih
    exact ⟨c :: body, behind, rfl, by rw [hn, List.length_cons]; omega, List.forall_mem_cons.mpr ⟨.inl h', hb⟩⟩
  | case4 exponent n c rest h h' h'' ih =>
    obtain ⟨body, behind, rfl, hn, hb⟩ := ih
    refine ⟨c :: body, behind, rfl, by rw [hn, List.length_cons]; omega, List.forall_mem_cons.mpr ⟨?_, hb⟩⟩
    exact .inr (.inr (of_decide_eq_true (Bool.and_eq_true_iff.mp h'').1))
  | case5 exponent n c rest => exact ⟨[], c :: rest, rfl, rfl, by simp⟩

lemma operatorLength_eq (l : Language) (text : List Char) : operatorLength l text = 0 ∨
    ∃ op ∈ l.operators, op.toList <+: text ∧ op.toList.length = operatorLength l text := by
  rw [operatorLength, List.foldl_max]
  cases hm : ((l.operators.filter (·.toList.isPrefixOf text)).map String.length).max? with
  | none => exact .inl rfl
  | some m =>
    obtain ⟨op, hop, rfl⟩ := List.mem_map.mp (List.max?_mem hm)
    obtain ⟨hop, hpre⟩ := List.mem_filter.mp hop
    exact .inr ⟨op, hop, List.isPrefixOf_iff_prefix.mp hpre, by simp [String.length_toList]⟩

/-! ### Readings -/

structure Reading.Describes (r : Reading) (l : Language) (c : Char) (rest : List Char) : Prop where
  takes : Takes l 0 (c :: rest) (r.more + 1)
  reach : ∀ kind image reach, r.role = .token kind image reach → 0 < reach ∧ reach ≤ r.more + 1
  image : ∀ kind image reach, r.role = .token kind image reach → kind ≠ .directive →
    reach = r.more + 1 ∧ image = kind.imageOf (c :: rest.take r.more)

lemma Reading.Describes.more_le (h : r.Describes l c rest) : r.more ≤ rest.length := by
  have := h.takes.le.2
  rw [List.length_cons] at this
  omega

def Accounts (l : Language) (c : Char) (rest : List Char) : Except Failure Reading → Prop
  | .ok r => r.Describes l c rest
  | .error f => f.offset ≤ rest.length

lemma describes_plain (hk : kind ≠ .metadata) (ht : Takes l 0 (c :: rest) (k + 1)) :
    (Reading.plain kind c rest k).Describes l c rest := by
  refine ⟨ht, ?_, ?_⟩
  · rintro _ _ _ ⟨⟩
    exact ⟨Nat.succ_pos k, Nat.le_refl _⟩
  · rintro _ _ _ ⟨⟩ -
    exact ⟨rfl, by simp [Reading.plain, Kind.imageOf, hk]⟩

lemma accounts_plain {x : Except Failure ℕ} (hk : kind ≠ .metadata) (hx : Measures l 0 rest x) :
    Accounts l c rest (x.map (.plain kind c rest)) := by
  cases x with
  | ok k => exact describes_plain hk (.cons (hx.shift 1))
  | error f => exact Nat.le_trans hx (Nat.zero_add _).le

lemma describes_comment (ht : Takes l 0 (c :: rest) (k + 1)) : (⟨.comment, k⟩ : Reading).Describes l c rest :=
  ⟨ht, by rintro _ _ _ ⟨⟩, by rintro _ _ _ ⟨⟩⟩

lemma describes_draft (ht : Takes l 0 rest d.more) (hd : d.ReachesText) : d.reading.Describes l c rest := by
  refine ⟨.cons (ht.shift 1), ?_, ?_⟩
  · rintro _ _ _ ⟨⟩
    exact hd
  · rintro _ _ _ ⟨⟩ h
    exact absurd rfl h

lemma measures_of_drop {x : Except Failure ℕ} (h : Measures l k (rest.drop k) x) (hk : k ≤ rest.length) :
    Measures l 0 rest x :=
  .of_drop (by rwa [Nat.zero_add]) hk

lemma describes_preprocessorLine (hl : l ∈ Language.builtin)
    (h : readPreprocessorLine? l lineStart c rest = some r) : r.Describes l c rest := by
  rw [readPreprocessorLine?, Option.ite_none_right_eq_some] at h
  obtain ⟨hp, h⟩ := h
  obtain rfl := Option.some.inj h
  simp only [Bool.and_eq_true] at hp
  refine describes_draft (takes_preprocessorLine (lineComment_of_preprocessor hl hp.1.1) false (.ofText c []) rest) ?_
  exact reachesText_preprocessorLine _ _ _ ⟨Nat.succ_pos 0, Nat.le_refl _⟩

lemma accounts_squeezed {x : Except Failure ℕ} (hx : Measures l 0 rest x) :
    Accounts l c rest (x.map fun more =>
      ⟨.token .metadata ((c :: rest.take more).filter fun c => !Text.isBlank c) (more + 1), more⟩) := by
  cases x with
  | ok k =>
    refine ⟨.cons (hx.shift 1), ?_, ?_⟩
    · rintro _ _ _ ⟨⟩
      exact ⟨Nat.succ_pos k, Nat.le_refl _⟩
    · rintro _ _ _ ⟨⟩ -
      exact ⟨rfl, rfl⟩
  | error f => exact Nat.le_trans hx (Nat.zero_add _).le

lemma metadataName?_eq_some {name : List Char} (h : metadataName? l rest = some name) :
    name = rest.takeWhile (fun c => l.continuesWord c || c = '.') ∧ name.head?.any l.opensWord = true := by
  rw [metadataName?, Option.ite_none_right_eq_some, Bool.and_eq_true] at h
  obtain ⟨⟨ho, -⟩, h⟩ := h
  obtain rfl := Option.some.inj h
  exact ⟨rfl, ho⟩

lemma endsDark_name {name : List Char} (h : metadataName? l rest = some name) : EndsDark name := by
  obtain ⟨rfl, ho⟩ := metadataName?_eq_some h
  have hne : rest.takeWhile (fun c => l.continuesWord c || c = '.') ≠ [] := by
    intro hn
    simp [hn] at ho
  refine ⟨_, List.getLast?_eq_some_getLast hne, ?_⟩
  have hlast := List.mem_takeWhile_imp (List.getLast_mem hne)
  simp only [Bool.or_eq_true, decide_eq_true_eq] at hlast
  rcases hlast with hlast | hlast
  · exact isBlank_of_continuesWord hlast
  · rw [hlast]
    decide

lemma measures_metadata (hl : l ∈ Language.builtin) {x : Except Failure ℕ}
    (h : metadataLength? l lineStart c rest = some x) : Measures l 0 rest x := by
  have hnamed : ∀ {x}, namedLength? l rest = some x → Measures l 0 rest x := by
    intro x hx
    obtain ⟨name, hname, rfl⟩ := Option.map_eq_some_iff.mp hx
    obtain ⟨behind, hrest⟩ : name <+: rest := (metadataName?_eq_some hname).1 ▸ List.takeWhile_prefix _
    subst hrest
    dsimp only
    split
    · refine measures_of_drop ?_ (by simp : name.length ≤ (name ++ behind).length)
      exact measures_balancedLength hl (by decide) _ _ _ _
    · have := Takes.dark (l := l) (endsDark_name hname) 0 behind
      rwa [Nat.zero_add] at this
  have hbracketed : ∀ {x}, bracketedLength? l rest = some x → Measures l 0 rest x := by
    intro x hx
    rw [bracketedLength?] at hx
    split at hx
    · obtain rfl := Option.some.inj hx
      exact measures_balancedLength hl (by decide) _ _ _ _
    · split at hx
      · next hp =>
        obtain ⟨u, rfl⟩ := List.isPrefixOf_iff_prefix.mp hp
        obtain rfl := Option.some.inj hx
        exact .cons (measures_balancedLength hl (by decide) _ _ _ _)
      · exact absurd hx (by simp)
  rw [metadataLength?] at h
  split at h
  · simp at h
  · exact hnamed (Option.ite_none_right_eq_some.mp h).2
  · exact hnamed (Option.ite_none_right_eq_some.mp h).2
  · exact hbracketed (Option.ite_none_right_eq_some.mp h).2

lemma accounts_metadata (hl : l ∈ Language.builtin) {x : Except Failure Reading}
    (h : readMetadata? l lineStart c rest = some x) : Accounts l c rest x := by
  obtain ⟨length, hlength, rfl⟩ := Option.map_eq_some_iff.mp h
  exact accounts_squeezed (measures_metadata hl hlength)

lemma verbatimMark?_eq_some {marks : ℕ} {verbatim : Bool} (h : verbatimMark? c rest = some (marks, verbatim)) :
    ∃ behind, rest = rest.take marks ++ '"' :: behind ∧ (rest.take marks).length = marks := by
  rw [verbatimMark?] at h
  split at h
  · next hp =>
    obtain ⟨rfl, -⟩ := Prod.mk.inj (Option.some.inj h)
    rcases hp with ⟨-, hp⟩ | ⟨-, hp⟩ <;> obtain ⟨u, rfl⟩ := List.isPrefixOf_iff_prefix.mp hp <;> exact ⟨u, rfl, rfl⟩
  · split at h
    · next hp =>
      obtain ⟨rfl, -⟩ := Prod.mk.inj (Option.some.inj h)
      obtain ⟨u, rfl⟩ := List.isPrefixOf_iff_prefix.mp hp.2
      exact ⟨u, rfl, rfl⟩
    · rw [Option.ite_none_right_eq_some] at h
      obtain ⟨hp, h⟩ := h
      obtain ⟨rfl, -⟩ := Prod.mk.inj (Option.some.inj h)
      obtain ⟨u, rfl⟩ := List.isPrefixOf_iff_prefix.mp hp.2
      exact ⟨u, rfl, rfl⟩

lemma accounts_verbatimString {x : Except Failure Reading} (h : readVerbatimString? l c rest = some x) :
    Accounts l c rest x := by
  rw [readVerbatimString?, Option.ite_none_right_eq_some] at h
  obtain ⟨-, h⟩ := h
  obtain ⟨⟨marks, verbatim⟩, hmark, rfl⟩ := Option.map_eq_some_iff.mp h
  obtain ⟨behind, hrest, hmarks⟩ := verbatimMark?_eq_some hmark
  have hle : marks + 1 ≤ rest.length := by
    rw [hrest, List.length_append, hmarks, List.length_cons]
    omega
  refine accounts_plain (by decide) (measures_of_drop ?_ hle)
  split
  · exact Extent.measures_settle (Extent.takes_verbatimString l _ _) _ _
  · exact Extent.measures_settle (Extent.takes_literal l (by decide) _ _) _ _

lemma rawStringExtent?_eq_some {e : Extent} (h : rawStringExtent? behind = some e) : Takes l 0 behind e.length := by
  simp only [rawStringExtent?, Option.ite_none_right_eq_some] at h
  obtain ⟨hq, h⟩ := h
  obtain rfl := Option.some.inj h
  obtain ⟨u, hu⟩ := List.head?_eq_some_iff.mp hq
  have hle := congrArg List.length hu
  rw [List.length_drop, List.length_cons] at hle
  exact measures_of_drop (x := .ok _) (Extent.takes_rawString l _ _ _)
    (by omega : (behind.takeWhile (· = '#')).length + 1 ≤ behind.length)

lemma markedLiteral?_eq_some (hl : l ∈ Language.builtin) {x : Except Failure ℕ}
    (h : markedLiteral? l word n behind = some (kind, x)) : kind.isLiteral = true ∧ Measures l n behind x := by
  cases behind with
  | nil => simp [markedLiteral?] at h
  | cons quote rest =>
    simp only [markedLiteral?] at h
    split at h
    · next e he =>
      obtain ⟨rfl, rfl⟩ := Prod.mk.inj (Option.some.inj h)
      rw [Option.ite_none_right_eq_some] at he
      exact ⟨rfl, (Extent.measures_settle (rawStringExtent?_eq_some he.2) _ _).map_add n⟩
    · split at h
      · next hq =>
        obtain ⟨rfl, rfl⟩ := Prod.mk.inj (Option.some.inj h)
        rw [Bool.and_eq_true] at hq
        refine ⟨rfl, .cons (Extent.measures_settle (Extent.takes_string l (isBlank_of_quote hl hq.2) _ _) _ _)⟩
      · rw [Option.ite_none_right_eq_some] at h
        obtain ⟨-, h⟩ := h
        obtain ⟨rfl, rfl⟩ := Prod.mk.inj (Option.some.inj h)
        exact ⟨rfl, .cons (Extent.measures_settle (Extent.takes_literal l (by decide) _ _) _ _)⟩

lemma isLiteral_ne (h : kind.isLiteral = true) : kind ≠ .metadata := by
  rintro rfl
  exact absurd h (by decide)

lemma accounts_word (hl : l ∈ Language.builtin) (hc : Text.isBlank c = false) {x : Except Failure Reading}
    (h : readWord? l lineStart c rest = some x) : Accounts l c rest x := by
  rw [readWord?, Option.ite_none_right_eq_some] at h
  obtain ⟨-, h⟩ := h
  obtain rfl := Option.some.inj h
  have hle := (List.takeWhile_prefix l.continuesWord (l := rest)).length_le
  split
  · next kind length hm =>
    obtain ⟨hk, hx⟩ := markedLiteral?_eq_some hl hm
    exact accounts_plain (isLiteral_ne hk) (measures_of_drop hx hle)
  · split
    · refine describes_draft (measures_of_drop (x := .ok _) (takes_statement l 0 false (.ofText c _) _) hle) ?_
      exact reachesText_statement l _ _ _ _ ⟨Nat.succ_pos _, Nat.le_refl _⟩
    · refine describes_plain ?_ (takes_takeWhile l (fun x hx => isBlank_of_continuesWord hx) hc rest)
      split <;> decide

lemma describes_number (hc : Text.isBlank c = false) (h : readNumber? c rest = some r) : r.Describes l c rest := by
  rw [readNumber?, Option.ite_none_right_eq_some] at h
  obtain ⟨-, h⟩ := h
  obtain rfl := Option.some.inj h
  obtain ⟨body, behind, hrest, hn, hb⟩ := numberLength_eq (opensHex c rest) false 0 rest
  refine describes_plain (by decide) ?_
  rw [hn, Nat.zero_add]
  conv => arg 3; rw [hrest]
  exact takes_of_forall l (fun x hx => (hb x hx).isBlank) hc behind

lemma accounts_string (hl : l ∈ Language.builtin) {x : Except Failure Reading}
    (h : readString? l c rest = some x) : Accounts l c rest x := by
  rw [readString?, Option.ite_none_right_eq_some] at h
  obtain ⟨hq, h⟩ := h
  obtain rfl := Option.some.inj h
  exact accounts_plain (by decide)
    (Extent.measures_settle (Extent.takes_string l (isBlank_of_quote hl hq) 0 rest) _ _)

lemma accounts_otherLiteral (hl : l ∈ Language.builtin) (hc : Text.isBlank c = false) {x : Except Failure Reading}
    (h : readOtherLiteral? l c rest = some x) : Accounts l c rest x := by
  obtain ⟨d, hd, rfl⟩ := Option.map_eq_some_iff.mp h
  obtain ⟨hq, hk⟩ := otherLiterals_of_builtin hl (List.mem_of_find?_eq_some hd)
  split
  · exact describes_plain (by decide) (takes_takeWhile l (fun x hx => isBlank_of_continuesWord hx) hc rest)
  · refine accounts_plain (isLiteral_ne hk) (Extent.measures_settle (Extent.takes_literal l ?_ 0 rest) _ _)
    rcases hq with hq | hq <;> rw [hq] <;> decide

lemma accounts_operator (hl : l ∈ Language.builtin) (hc : Text.isBlank c = false) (rest : List Char) :
    Accounts l c rest (readOperator l c rest) := by
  rw [readOperator]
  rcases operatorLength_eq l (c :: rest) with h | ⟨op, hop, hpre, hn⟩
  · rw [h]
    dsimp only
    split
    · exact Nat.zero_le _
    · exact describes_plain (by decide) (takes_of_forall l (List.forall_mem_nil _) hc rest)
  · obtain ⟨x, s, hs⟩ := exists_operator_cons hl hop
    have hdark := fun y hy => isBlank_of_mem_operator (x := y) hl hop hy
    rw [hs] at hpre hn hdark
    obtain ⟨rfl, behind, rfl⟩ := List.cons_prefix_cons.mp hpre
    rw [← hn, List.length_cons]
    exact describes_plain (by decide) (takes_of_forall l (List.forall_mem_cons.mp hdark).2 hc behind)

lemma readToken_cases {P : Except Failure Reading → Prop}
    (preprocessorLine : ∀ r, readPreprocessorLine? l lineStart c rest = some r → P (.ok r))
    (metadata : ∀ x, readMetadata? l lineStart c rest = some x → P x)
    (verbatimString : ∀ x, readVerbatimString? l c rest = some x → P x)
    (word : ∀ x, readWord? l lineStart c rest = some x → P x)
    (number : ∀ r, readNumber? c rest = some r → P (.ok r))
    (string : ∀ x, readString? l c rest = some x → P x)
    (otherLiteral : ∀ x, readOtherLiteral? l c rest = some x → P x)
    (operator : P (readOperator l c rest)) : P (readToken l lineStart c rest) := by
  rw [readToken]
  cases hp : readPreprocessorLine? l lineStart c rest with
  | some r => exact preprocessorLine r hp
  | none =>
  cases hm : readMetadata? l lineStart c rest with
  | some x => exact metadata x hm
  | none =>
  cases hv : readVerbatimString? l c rest with
  | some x => exact verbatimString x hv
  | none =>
  cases hw : readWord? l lineStart c rest with
  | some x => exact word x hw
  | none =>
  cases hn : readNumber? c rest with
  | some r => exact number r hn
  | none =>
  cases hs : readString? l c rest with
  | some x => exact string x hs
  | none =>
  cases ho : readOtherLiteral? l c rest with
  | some x => exact otherLiteral x ho
  | none => exact operator

lemma readToken_quote (hq : l.quotes.contains '"' = true) (lineStart : Bool) (rest : List Char) :
    readToken l lineStart '"' rest =
      ((Extent.string l '"' 0 rest).settle l.strict .openLiteral).map (.plain .string '"' rest) := by
  have hmetadata : readMetadata? l lineStart '"' rest = none := by
    rw [readMetadata?, Option.map_eq_none_iff, metadataLength?]
    split <;> rfl
  have hopens : l.opensWord '"' = false := by
    have halphabetic : Text.isAlphabetic '"' = false := by decide
    simp [Language.opensWord, halphabetic]
  have hword : readWord? l lineStart '"' rest = none := if_neg (by simp [hopens])
  have hnumber : readNumber? '"' rest = none := if_neg (by simp [opensNumber])
  have hstring : readString? l '"' rest =
      some (((Extent.string l '"' 0 rest).settle l.strict .openLiteral).map (.plain .string '"' rest)) := if_pos hq
  rw [readToken, hmetadata, hword, hnumber, hstring]
  simp [readPreprocessorLine?, readVerbatimString?, verbatimMark?]

lemma accounts_readToken (hl : l ∈ Language.builtin) (hc : Text.isBlank c = false) :
    Accounts l c rest (readToken l lineStart c rest) :=
  readToken_cases (fun _ h => describes_preprocessorLine hl h) (fun _ h => accounts_metadata hl h)
    (fun _ h => accounts_verbatimString h) (fun _ h => accounts_word hl hc h) (fun _ h => describes_number hc h)
    (fun _ h => accounts_string hl h) (fun _ h => accounts_otherLiteral hl hc h) (accounts_operator hl hc rest)

lemma mark_of_opensLineComment (hl : l ∈ Language.builtin) (h : l.opensLineComment (c :: rest) = true) :
    c = '/' ∧ l.lineComment = some ['/', '/'] ∨ c = '#' ∧ l.lineComment = some ['#'] := by
  rw [Language.opensLineComment] at h
  rcases (comments_of_builtin hl).1 with hm | hm | hm <;> rw [hm] at h
  · simp at h
  · obtain ⟨u, hu⟩ := List.isPrefixOf_iff_prefix.mp h
    exact .inl ⟨(List.cons.inj hu).1.symm, hm⟩
  · obtain ⟨u, hu⟩ := List.isPrefixOf_iff_prefix.mp h
    exact .inr ⟨(List.cons.inj hu).1.symm, hm⟩

lemma slash_of_opensBlockComment (h : l.opensBlockComment (c :: rest) = true) :
    l.blockComments ≠ .absent ∧ c = '/' ∧ ∃ u, rest = '*' :: u := by
  rw [Language.opensBlockComment, Bool.and_eq_true, decide_eq_true_eq] at h
  obtain ⟨u, hu⟩ := List.isPrefixOf_iff_prefix.mp h.2
  obtain ⟨rfl, rfl⟩ := List.cons.inj hu
  exact ⟨h.1, rfl, u, rfl⟩

lemma describes_lineComment (rest : List Char) :
    (⟨.comment, (rest.takeWhile (· ≠ '\n')).length⟩ : Reading).Describes l c rest := by
  refine describes_comment (.cons ⟨_, rest.dropWhile (· ≠ '\n'), by simp, Nat.add_comm _ _, .inr ?_⟩)
  cases hd : rest.dropWhile (· ≠ '\n') with
  | nil => exact .inl rfl
  | cons x s =>
    have hx := List.head?_dropWhile_not (· ≠ '\n') rest
    rw [hd] at hx
    exact .inr (.inl (by simpa using hx))

lemma accounts_comment {x : Except Failure ℕ} (hx : Measures l 0 rest x) :
    Accounts l c rest (x.map fun more => ⟨.comment, more⟩) := by
  cases x with
  | ok k => exact describes_comment (.cons (hx.shift 1))
  | error f => exact Nat.le_trans hx (Nat.zero_add _).le

lemma accounts_read (hl : l ∈ Language.builtin) (hc : Text.isBlank c = false) (lineStart : Bool) (rest : List Char) :
    Accounts l c rest (read l lineStart c rest) := by
  rw [read, if_neg (by simp [hc])]
  split
  · exact describes_lineComment rest
  · split
    · next hb =>
      obtain ⟨-, rfl, u, rfl⟩ := slash_of_opensBlockComment hb
      exact accounts_comment (measures_of_drop (Extent.measures_settle (Extent.takes_blockComment l _ _ _ _) _ _)
        (by simp))
    · exact accounts_readToken hl hc

lemma read_blank (l : Language) (lineStart : Bool) (hc : Text.isBlank c = true) (rest : List Char) :
    read l lineStart c rest = .ok ⟨.blank, 0⟩ := by
  rw [read, if_pos hc]

lemma more_le_of_read (hl : l ∈ Language.builtin) (h : read l lineStart c rest = .ok r) : r.more ≤ rest.length := by
  cases hc : Text.isBlank c with
  | true =>
    rw [read_blank l lineStart hc] at h
    obtain rfl := Except.ok.inj h
    exact Nat.zero_le _
  | false =>
    have ha := accounts_read hl hc lineStart rest
    rw [h] at ha
    exact Reading.Describes.more_le ha

end Source

end CodeClones
