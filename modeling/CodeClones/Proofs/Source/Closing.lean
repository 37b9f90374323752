import CodeClones.Proofs.Source.Segments
import CodeClones.Proofs.Source.Trivia

/-! In a strict language everything that is read but a directive ends behind a character that is not blank: what is
opened is closed. -/

namespace CodeClones.Source

open Success

variable {l : Language} {lineStart : Bool} {n k depth marks : ℕ} {text body behind rest s t : List Char}
  {c quote opening closing : Char} {word : String} {d : Delimiter} {kind : Kind} {fault : Fault}

/-- A construct of which `n` characters stand before the text is closed by the character number `k`, which is not
blank. -/
def ClosesAt (n : ℕ) (text : List Char) (k : ℕ) : Prop :=
  ∃ body behind, text = body ++ behind ∧ k = n + body.length ∧ EndsDark body

namespace ClosesAt

lemma dark (h : EndsDark body) (n : ℕ) (behind : List Char) : ClosesAt n (body ++ behind) (n + body.length) :=
  ⟨body, behind, rfl, rfl, h⟩

lemma append (h : ClosesAt (n + s.length) t k) : ClosesAt n (s ++ t) k := by
  obtain ⟨body, behind, rfl, rfl, hd⟩ := h
  exact ⟨s ++ body, behind, by rw [List.append_assoc], by rw [List.length_append, Nat.add_assoc], hd.append s⟩

lemma cons (h : ClosesAt (n + 1) text k) : ClosesAt n (c :: text) k := append (s := [c]) h

lemma of_drop {m : ℕ} (h : ClosesAt (n + k) (text.drop k) m) (hk : k ≤ text.length) : ClosesAt n text m := by
  rw [← List.take_append_drop k text]
  exact append (by rwa [List.length_take, Nat.min_eq_left hk])

lemma drop {m : ℕ} (h : ClosesAt k (text.drop k) m) (hk : k ≤ text.length) : ClosesAt 0 text m :=
  of_drop (by rwa [Nat.zero_add]) hk

lemma endsDark (h : ClosesAt 0 (s ++ t) s.length) : EndsDark s := by
  obtain ⟨body, behind, he, hlength, hd⟩ := h
  rw [Nat.zero_add] at hlength
  rwa [(List.append_inj he hlength).1]

lemma shift (h : ClosesAt n text k) (m : ℕ) : ClosesAt (m + n) text (m + k) := by
  obtain ⟨body, behind, rfl, rfl, hd⟩ := h
  exact ⟨body, behind, rfl, (Nat.add_assoc _ _ _).symm, hd⟩

end ClosesAt

namespace Extent

lemma closes_blockComment {nested : Bool} (h : blockComment nested depth n text = .closed k) : ClosesAt n text k := by
  fun_induction blockComment nested depth n text with
  | case1 => simp at h
  | case2 n c rest hc =>
    obtain ⟨rest, rfl⟩ := List.head?_eq_some_iff.mp hc.2
    obtain rfl := Extent.closed.inj h
    exact .dark (show EndsDark [c, '/'] from ⟨'/', rfl, by decide⟩) n rest
  | case3 depth n c rest hc hd ih =>
    obtain ⟨rest, rfl⟩ := List.head?_eq_some_iff.mp hc.2
    exact .append (s := [c, '/']) (ih h)
  | case4 depth n c rest hc hc' ih =>
    obtain ⟨rest, rfl⟩ := List.head?_eq_some_iff.mp hc'.2.2
    exact .append (s := [c, '*']) (ih h)
  | case5 depth n c rest hc hc' ih => exact .cons (ih h)

lemma closes_literal (hd : Text.isBlank d.quote = false) (h : literal d n text = .closed k) : ClosesAt n text k := by
  fun_induction literal d n text with
  | case1 => simp at h
  | case2 => simp at h
  | case3 => simp at h
  | case4 n c hc hc' e rest ih => exact .append (s := [c, e]) (ih h)
  | case5 n rest hc hc' =>
    obtain rfl := Extent.closed.inj h
    exact .dark (endsDark_singleton hd) n rest
  | case6 n c rest hc hc' hc'' ih => exact .cons (ih h)

lemma closes_tripleQuoted (hq : Text.isBlank quote = false) (h : tripleQuoted quote n text = .closed k) :
    ClosesAt n text k := by
  fun_induction tripleQuoted quote n text with
  | case1 => simp at h
  | case2 n c rest hc =>
    obtain ⟨rest, rfl⟩ := List.isPrefixOf_iff_prefix.mp hc.2
    obtain rfl := Extent.closed.inj h
    exact .dark (show EndsDark [c, quote, quote] from ⟨quote, rfl, hq⟩) n rest
  | case3 => simp at h
  | case4 n e rest hc ih => exact .append (s := ['\\', e]) (ih h)
  | case5 n c rest hc hc' ih => exact .cons (ih h)

lemma closes_rawString (h : rawString marks n text = .closed k) : ClosesAt n text k := by
  fun_induction rawString marks n text with
  | case1 => simp at h
  | case2 n c rest hc =>
    obtain ⟨rest, rfl⟩ := List.isPrefixOf_iff_prefix.mp hc.2
    obtain rfl := Extent.closed.inj h
    have hdark : EndsDark (c :: List.replicate marks '#') := by
      cases marks with
      | zero => exact endsDark_singleton (by rw [hc.1]; decide)
      | succ marks => exact ⟨'#', by simp [List.getLast?_cons, List.getLast?_replicate], by decide⟩
    simpa [Nat.add_assoc, Nat.add_comm marks] using ClosesAt.dark hdark n rest
  | case3 n c rest hc ih => exact .cons (ih h)

lemma closes_verbatimString (h : verbatimString n text = .closed k) : ClosesAt n text k := by
  fun_induction verbatimString n text with
  | case1 => simp at h
  | case2 n rest ih => exact .append (s := ['"', '"']) (ih h)
  | case3 n rest hc =>
    obtain rfl := Extent.closed.inj h
    exact .dark (endsDark_singleton (by decide)) n rest
  | case4 n c rest hc ih => exact .cons (ih h)

lemma closes_string (hq : Text.isBlank quote = false) (h : string l quote n text = .closed k) :
    ClosesAt n text k := by
  rw [string] at h
  split at h
  · next ht =>
    obtain ⟨rest, rfl⟩ := List.isPrefixOf_iff_prefix.mp ht.2
    exact .append (s := [quote, quote]) (closes_tripleQuoted hq h)
  · exact closes_literal hq h

lemma settle_strict {e : Extent} : e.settle true fault = .ok k ↔ e = .closed k := by
  cases e <;> simp [settle]

end Extent

lemma closes_balancedLength (hl : l ∈ Language.builtin) (hstrict : l.strict = true)
    (hc : Text.isBlank closing = false) (h : balancedLength l opening closing depth n text = .ok k) :
    ClosesAt n text k := by
  have hquoted : ∀ c rest k, l.quotes.contains c = true → Extent.literal (l.stringDelimiter c) 0 rest = .closed k →
      k ≤ rest.length := by
    intro c rest k hq hk
    have := (Extent.takes_literal l (d := l.stringDelimiter c) (isBlank_of_quote hl hq) 0 rest).le.2
    simpa [hk, Extent.length] using this
  fun_induction balancedLength l opening closing depth n text with
  | case1 => simp at h
  | case2 => contradiction
  | case3 depth n c rest hq m hm ih => exact .cons ((ih h).of_drop (hquoted c rest m hq hm))
  | case4 => simp at h
  | case5 => contradiction
  | case6 depth n rest _ ih => exact .cons (ih h)
  | case7 depth n rest =>
    obtain rfl := Except.ok.inj h
    exact .dark (endsDark_singleton hc) n rest
  | case8 depth n rest _ _ _ ih => exact .cons (ih h)
  | case9 depth n c rest _ _ _ ih => exact .cons (ih h)

lemma closes_metadata (hl : l ∈ Language.builtin) (hstrict : l.strict = true)
    (h : metadataLength? l lineStart c rest = some (.ok k)) : ClosesAt 0 rest k := by
  have hnamed : namedLength? l rest = some (.ok k) → ClosesAt 0 rest k := by
    intro hx
    obtain ⟨name, hname, hx⟩ := Option.map_eq_some_iff.mp hx
    obtain ⟨behind, rfl⟩ : name <+: rest := (metadataName?_eq_some hname).1 ▸ List.takeWhile_prefix _
    dsimp only at hx
    split at hx
    · exact .drop (closes_balancedLength hl hstrict (by decide) hx) (by simp)
    · obtain rfl := Except.ok.inj hx
      simpa using ClosesAt.dark (endsDark_name hname) 0 behind
  have hbracketed : bracketedLength? l rest = some (.ok k) → ClosesAt 0 rest k := by
    intro hx
    rw [bracketedLength?] at hx
    split at hx
    · exact closes_balancedLength hl hstrict (by decide) (Option.some.inj hx)
    · rw [Option.ite_none_right_eq_some] at hx
      obtain ⟨hp, hx⟩ := hx
      obtain ⟨u, rfl⟩ := List.isPrefixOf_iff_prefix.mp hp
      exact .drop (closes_balancedLength hl hstrict (by decide) (Option.some.inj hx)) (by simp)
  rw [metadataLength?] at h
  split at h
  · simp at h
  · exact hnamed (Option.ite_none_right_eq_some.mp h).2
  · exact hnamed (Option.ite_none_right_eq_some.mp h).2
  · exact hbracketed (Option.ite_none_right_eq_some.mp h).2

lemma closes_markedLiteral (hl : l ∈ Language.builtin) (hstrict : l.strict = true)
    (h : markedLiteral? l word n behind = some (kind, .ok k)) : ClosesAt n behind k := by
  cases behind with
  | nil => simp [markedLiteral?] at h
  | cons quote rest =>
    simp only [markedLiteral?, hstrict] at h
    split at h
    · next e he =>
      obtain ⟨-, hx⟩ := Prod.mk.inj (Option.some.inj h)
      obtain ⟨m, hm, rfl⟩ := map_eq_ok.mp hx
      obtain ⟨-, he⟩ := Option.ite_none_right_eq_some.mp he
      simp only [rawStringExtent?, Option.ite_none_right_eq_some] at he
      obtain ⟨hq, he⟩ := he
      obtain ⟨u, hu⟩ := List.head?_eq_some_iff.mp hq
      have hle := congrArg List.length hu
      simp only [List.length_drop, List.length_cons] at hle
      obtain rfl := Option.some.inj he
      have hclosed := Extent.closes_rawString (Extent.settle_strict.mp hm)
      exact (hclosed.drop (by simp only [List.length_cons]; omega)).shift n
    · split at h
      · next hq =>
        obtain ⟨-, hx⟩ := Prod.mk.inj (Option.some.inj h)
        rw [Bool.and_eq_true] at hq
        exact .cons (Extent.closes_string (isBlank_of_quote hl hq.2) (Extent.settle_strict.mp hx))
      · rw [Option.ite_none_right_eq_some] at h
        obtain ⟨-, hx⟩ := Prod.mk.inj (Option.some.inj h.2)
        exact .cons (Extent.closes_literal (by decide) (Extent.settle_strict.mp hx))

lemma closes_of_forall (hc : Text.isBlank c = false) (hb : ∀ x ∈ body, Text.isBlank x = false)
    (behind : List Char) : ClosesAt 0 (c :: (body ++ behind)) (body.length + 1) := by
  simpa using ClosesAt.dark (endsDark_cons_of_forall hc hb) 0 behind

lemma closes_takeWhile {p : Char → Bool} (hp : ∀ x, p x = true → Text.isBlank x = false)
    (hc : Text.isBlank c = false) (rest : List Char) : ClosesAt 0 (c :: rest) ((rest.takeWhile p).length + 1) := by
  have h := closes_of_forall hc (fun x (hx : x ∈ rest.takeWhile p) => hp x (List.mem_takeWhile_imp hx))
    (rest.dropWhile p)
  rwa [List.takeWhile_append_dropWhile] at h

lemma closes_plain {x : Except Failure ℕ} {role : Role} (h : x.map (Reading.plain kind c rest) = .ok ⟨role, k⟩)
    (hx : ∀ m, x = .ok m → ClosesAt 0 rest m) : ClosesAt 0 (c :: rest) (k + 1) := by
  obtain ⟨m, hm, h⟩ := map_eq_ok.mp h
  obtain rfl : m = k := congrArg Reading.more h
  simpa [Nat.add_comm] using ClosesAt.cons ((hx m hm).shift 1)

lemma closes_word (hl : l ∈ Language.builtin) (hstrict : l.strict = true) (hc : Text.isBlank c = false) {role : Role}
    (h : readWord? l lineStart c rest = some (.ok ⟨role, k⟩))
    (hrole : ∀ image reach, role ≠ .token .directive image reach) : ClosesAt 0 (c :: rest) (k + 1) := by
  obtain ⟨-, h⟩ := Option.ite_none_right_eq_some.mp h
  have hle := (List.takeWhile_prefix l.continuesWord (l := rest)).length_le
  replace h := Option.some.inj h
  split at h
  · next kind x hm =>
    refine closes_plain h fun m hx => .drop (closes_markedLiteral hl hstrict (hx ▸ hm)) hle
  · split at h
    · exact absurd (Reading.mk.inj (Except.ok.inj h)).1.symm (hrole _ _)
    · obtain ⟨-, rfl⟩ := Reading.mk.inj (Except.ok.inj h)
      exact closes_takeWhile (fun x hx => isBlank_of_continuesWord hx) hc rest

lemma closes_operator (hl : l ∈ Language.builtin) (hc : Text.isBlank c = false) {role : Role}
    (h : readOperator l c rest = .ok ⟨role, k⟩) : ClosesAt 0 (c :: rest) (k + 1) := by
  rw [readOperator] at h
  rcases operatorLength_eq l (c :: rest) with hn | ⟨op, hop, hpre, hn⟩
  · rw [hn] at h
    dsimp only at h
    split at h
    · simp at h
    · obtain ⟨-, rfl⟩ := Reading.mk.inj (Except.ok.inj h)
      exact closes_of_forall hc (List.forall_mem_nil _) rest
  · obtain ⟨x, s, hs⟩ := exists_operator_cons hl hop
    have hdark := fun y hy => isBlank_of_mem_operator (x := y) hl hop hy
    rw [hs] at hpre hn hdark
    obtain ⟨rfl, behind, rfl⟩ := List.cons_prefix_cons.mp hpre
    rw [← hn, List.length_cons] at h
    obtain ⟨-, rfl⟩ := Reading.mk.inj (Except.ok.inj h)
    exact closes_of_forall hc (List.forall_mem_cons.mp hdark).2 behind

lemma closes_readToken (hl : l ∈ Language.builtin) (hstrict : l.strict = true) (hc : Text.isBlank c = false)
    {role : Role} (h : readToken l lineStart c rest = .ok ⟨role, k⟩)
    (hrole : ∀ image reach, role ≠ .token .directive image reach) : ClosesAt 0 (c :: rest) (k + 1) := by
  revert h
  refine readToken_cases (P := fun x => x = .ok ⟨role, k⟩ → _) ?preprocessorLine ?metadata ?verbatimString ?word
    ?number ?string ?otherLiteral (closes_operator hl hc)
  case preprocessorLine =>
    rintro r hr ⟨⟩
    obtain ⟨-, hr⟩ := Option.ite_none_right_eq_some.mp hr
    exact absurd (Reading.mk.inj (Option.some.inj hr)).1.symm (hrole _ _)
  case metadata =>
    intro x hx h
    obtain ⟨length, hlength, rfl⟩ := Option.map_eq_some_iff.mp hx
    obtain ⟨m, rfl, hm⟩ := map_eq_ok.mp h
    obtain rfl : m = k := congrArg Reading.more hm
    simpa [Nat.add_comm] using ClosesAt.cons ((closes_metadata hl hstrict hlength).shift 1)
  case verbatimString =>
    intro x hx h
    obtain ⟨-, hx⟩ := Option.ite_none_right_eq_some.mp hx
    obtain ⟨⟨marks, verbatim⟩, hmark, rfl⟩ := Option.map_eq_some_iff.mp hx
    obtain ⟨behind, hrest, hmarks⟩ := verbatimMark?_eq_some hmark
    have hle : marks + 1 ≤ rest.length := by
      rw [hrest, List.length_append, hmarks, List.length_cons]
      omega
    rw [hstrict] at h
    refine closes_plain h fun m hm => .drop ?_ hle
    split at hm
    · exact Extent.closes_verbatimString (Extent.settle_strict.mp hm)
    · exact Extent.closes_literal (by decide) (Extent.settle_strict.mp hm)
  case word =>
    rintro x hx rfl
    exact closes_word hl hstrict hc hx hrole
  case number =>
    rintro r hr ⟨⟩
    obtain ⟨-, hr⟩ := Option.ite_none_right_eq_some.mp hr
    obtain ⟨-, rfl⟩ := Reading.mk.inj (Option.some.inj hr)
    obtain ⟨body, behind, hrest, hn, hb⟩ := numberLength_eq (opensHex c rest) false 0 rest
    rw [hn, Nat.zero_add, hrest]
    exact closes_of_forall hc (fun x hx => (hb x hx).isBlank) behind
  case string =>
    intro x hx h
    obtain ⟨hq, ⟨⟩⟩ := Option.ite_none_right_eq_some.mp hx
    rw [hstrict] at h
    exact closes_plain h fun m hm => Extent.closes_string (isBlank_of_quote hl hq) (Extent.settle_strict.mp hm)
  case otherLiteral =>
    intro x hx h
    obtain ⟨d, hd, rfl⟩ := Option.map_eq_some_iff.mp hx
    obtain ⟨hq, -⟩ := otherLiterals_of_builtin hl (List.mem_of_find?_eq_some hd)
    split at h
    · obtain ⟨-, rfl⟩ := Reading.mk.inj (Except.ok.inj h)
      exact closes_takeWhile (fun x hx => isBlank_of_continuesWord hx) hc rest
    · rw [hstrict] at h
      refine closes_plain h fun m hm => Extent.closes_literal ?_ (Extent.settle_strict.mp hm)
      rcases hq with hq | hq <;> rw [hq] <;> decide

lemma IsRead.eq_blank_of_lineFeed {seg : Segment} (hl : l ∈ Language.builtin) (hstrict : l.strict = true)
    (h : IsRead l lineStart seg behind) (hlast : seg.text.getLast? = some '\n')
    (hrole : ∀ image reach, seg.role ≠ .token .directive image reach) : seg = ⟨.blank, ['\n']⟩ := by
  obtain ⟨c, u, htext, hr⟩ := h
  have hclosed : ¬ ClosesAt 0 (c :: (u ++ behind)) (u.length + 1) := by
    intro h
    obtain ⟨x, hx, hdark⟩ := ClosesAt.endsDark (s := c :: u) h
    obtain rfl : '\n' = x := Option.some.inj ((htext ▸ hlast).symm.trans hx)
    exact absurd hdark (by decide)
  rcases read_eq_ok hr with ⟨-, hblank⟩ | ⟨hc, ⟨-, hline⟩ | ⟨-, ⟨hopens, k, hk, hblock⟩ | ⟨-, htoken⟩⟩⟩
  · obtain ⟨role, text⟩ := seg
    obtain ⟨rfl, hu⟩ := Reading.mk.inj hblank
    obtain rfl := List.length_eq_zero_iff.mp hu
    obtain rfl : text = [c] := htext
    obtain rfl : c = '\n' := Option.some.inj hlast
    rfl
  · -- The comment is what stands in front of the line feed.
    have hu : u = (u ++ behind).takeWhile (· ≠ '\n') :=
      (List.prefix_of_prefix_length_le (List.prefix_append u behind) (List.takeWhile_prefix _)
        (Reading.mk.inj hline).2.le).eq_of_length (Reading.mk.inj hline).2
    rw [htext] at hlast
    rcases List.mem_cons.mp (List.mem_of_getLast? hlast) with rfl | hmem
    · exact absurd hc (by decide)
    · rw [hu] at hmem
      simpa using List.mem_takeWhile_imp hmem
  · refine absurd ?_ hclosed
    obtain ⟨-, rfl, v, hv⟩ := slash_of_opensBlockComment hopens
    rw [hstrict] at hk
    have := Extent.closes_blockComment (Extent.settle_strict.mp hk)
    rw [(Reading.mk.inj hblock).2]
    simpa [Nat.add_comm] using ClosesAt.cons ((this.drop (by rw [hv]; simp)).shift 1)
  · exact absurd (closes_readToken hl hstrict hc htoken hrole) hclosed

end CodeClones.Source
