import Mathlib
import CodeClones.Proofs.Locality.Extents
import CodeClones.Proofs.Source.Trivia
import CodeClones.Proofs.Source.Segments

/-! The brackets behind the name of metadata, matched character by character, and the brackets among the tokens
there. -/

namespace CodeClones

open Source Success

namespace Source

variable {ls : Bool} {c : Char} {u z rest name text : List Char} {depth k m n : ℕ} {r : Reading} {s : Segment}
  {ss : List Segment} {quote : Char} {d : Delimiter}

def Neutral (x : Char) : Prop := x ∉ ['"', '(', ')']

/-- Matching takes the segment for what it is. A comment or a character must not hold brackets or quotes, and what is
between the quotes of a text block must be what a string on one line may hold. -/
def Segment.IsTransparent (s : Segment) : Prop :=
  match s.role with
  | .comment | .token .char _ _ => ∀ x ∈ s.text, Neutral x
  | .token .string _ _ => ∀ body, s.text = ['"', '"', '"'] ++ body ++ ['"', '"', '"'] →
      Extent.literal (Language.java.stringDelimiter '"') 0 (body ++ ['"']) = .closed (body.length + 1)
  | _ => True

/-! ### Characters -/

lemma balancedLength_neutral (hc : Neutral c) (depth n : ℕ) (z : List Char) :
    balancedLength .java '(' ')' depth n (c :: z) = balancedLength .java '(' ')' depth (n + 1) z := by
  simp only [Neutral, List.mem_cons, List.not_mem_nil, or_false, not_or] at hc
  have hq : Language.java.quotes.contains c = false := by simpa [Language.java] using hc.1
  rw [balancedLength, if_neg (Bool.eq_false_iff.mp hq), if_neg hc.2.1, if_neg hc.2.2]

lemma balancedLength_skip (hu : ∀ x ∈ u, Neutral x) (depth n : ℕ) (z : List Char) :
    balancedLength .java '(' ')' depth n (u ++ z) = balancedLength .java '(' ')' depth (n + u.length) z := by
  induction u generalizing n with
  | nil => rfl
  | cons c u ih =>
    obtain ⟨hc, hu⟩ := List.forall_mem_cons.mp hu
    rw [List.cons_append, balancedLength_neutral hc, ih hu, List.length_cons, Nat.add_right_comm, Nat.add_assoc]

lemma balancedLength_open (depth n : ℕ) (z : List Char) :
    balancedLength .java '(' ')' depth n ('(' :: z) = balancedLength .java '(' ')' (depth + 1) (n + 1) z := by
  rw [balancedLength, if_neg (by decide), if_pos rfl]

lemma balancedLength_close (depth n : ℕ) (z : List Char) : balancedLength .java '(' ')' depth n (')' :: z) =
    if depth ≤ 1 then .ok (n + 1) else balancedLength .java '(' ')' (depth - 1) (n + 1) z := by
  rw [balancedLength, if_neg (by decide), if_neg (by decide), if_pos rfl]

lemma balancedLength_string (h : Extent.literal (Language.java.stringDelimiter '"') 0 rest = .closed k)
    (depth n : ℕ) : balancedLength .java '(' ')' depth n ('"' :: rest) =
      balancedLength .java '(' ')' depth (n + 1 + k) (rest.drop k) := by
  rw [balancedLength, if_pos (by decide), h]

lemma neutral_of_continuesWord (h : Language.java.continuesWord c = true) : Neutral c := by
  intro hc
  simp only [List.mem_cons, List.not_mem_nil, or_false] at hc
  rcases hc with rfl | rfl | rfl <;> exact absurd h (by decide)

lemma IsNumeral.neutral (h : IsNumeral c) : Neutral c := by
  intro hc
  simp only [List.mem_cons, List.not_mem_nil, or_false] at hc
  rcases hc with rfl | rfl | rfl <;> exact absurd h (by unfold IsNumeral; decide)

lemma neutral_of_isBlank (h : Text.isBlank c = true) : Neutral c := by
  intro hc
  have hmarks : ['"', '(', ')'] ⊆ markCharacters := by decide
  exact isBlank_ne h (hmarks hc) rfl

lemma neutral_operators : Language.java.operators.all
    (fun op => op.toList.all fun x => x != '"' && x != '(' && x != ')') = true := by
  decide +kernel

lemma java_mem_builtin : Language.java ∈ Language.builtin := by decide +kernel

/-! ### Literals -/

lemma Extent.tripleQuoted_closed (h : tripleQuoted quote n u = .closed m) :
    ∃ body behind, u = body ++ quote :: quote :: quote :: behind ∧ m = n + body.length + 3 := by
  fun_induction tripleQuoted quote n u with
  | case1 => simp at h
  | case2 n c rest hc =>
    obtain ⟨behind, rfl⟩ := List.isPrefixOf_iff_prefix.mp hc.2
    exact ⟨[], behind, by simp [hc.1], by simpa using h.symm⟩
  | case3 => simp at h
  | case4 n _ _ rest ih =>
    obtain ⟨body, behind, rfl, rfl⟩ := ih h
    exact ⟨_ :: _ :: body, behind, rfl, by simp only [List.length_cons]; omega⟩
  | case5 n c rest hc hc' ih =>
    obtain ⟨body, behind, rfl, rfl⟩ := ih h
    exact ⟨c :: body, behind, rfl, by simp only [List.length_cons]; omega⟩

lemma balancedLength_textBlock {body : List Char}
    (h : Extent.literal (Language.java.stringDelimiter '"') 0 (body ++ ['"']) = .closed (body.length + 1))
    (depth n : ℕ) (z : List Char) :
    balancedLength .java '(' ')' depth n ('"' :: '"' :: '"' :: (body ++ '"' :: '"' :: '"' :: z)) =
      balancedLength .java '(' ')' depth (n + (body.length + 6)) z := by
  have hempty : ∀ rest, Extent.literal (Language.java.stringDelimiter '"') 0 ('"' :: rest) = .closed 1 := by
    intro rest
    rw [Extent.literal_cons, if_neg (by decide), if_neg (by decide), if_pos (by rfl)]
  have hbody := Extent.literal_closed_append h ('"' :: '"' :: z)
  rw [List.append_assoc, List.singleton_append] at hbody
  rw [balancedLength_string (hempty _), List.drop_one, List.tail_cons, balancedLength_string hbody,
    List.drop_append, List.drop_eq_nil_of_le (Nat.le_succ _), Nat.add_sub_cancel_left, List.nil_append, List.drop_one,
    List.tail_cons, balancedLength_string (hempty _), List.drop_one, List.tail_cons]
  congr 1
  omega

/-! ### Segments -/

def opening : Key := ⟨.operator, some "("⟩

def closing : Key := ⟨.operator, some ")"⟩

def Segment.IsPassed (s : Segment) (z : List Char) : Prop :=
  s.key? ≠ some opening ∧ s.key? ≠ some closing ∧ ∀ depth n,
    balancedLength .java '(' ')' depth n (s.text ++ z) = balancedLength .java '(' ')' depth (n + s.text.length) z

def Segment.IsMatched (s : Segment) (z : List Char) : Prop :=
  s.key? = some opening ∧ s.text = ['('] ∨ s.key? = some closing ∧ s.text = [')'] ∨ s.IsPassed z

lemma ofList_ne {x : Char} (h : text ≠ [x]) : String.ofList text ≠ String.ofList [x] := by
  intro he
  have := congrArg String.toList he
  rw [String.toList_ofList, String.toList_ofList] at this
  exact h this

lemma isPassed_of_neutral {kind : Kind} {reach : ℕ} (h : ∀ x ∈ text, Neutral x) (z : List Char) :
    (⟨.token kind text reach, text⟩ : Segment).IsPassed z := by
  have hkey : ∀ x, ¬ Neutral x → String.ofList text ≠ String.ofList [x] := by
    refine fun x hx => ofList_ne ?_
    rintro rfl
    exact hx (h x List.mem_cons_self)
  refine ⟨fun he => ?_, fun he => ?_, fun depth n => balancedLength_skip h depth n z⟩
  · have := Key.mk.inj (Option.some.inj he)
    exact hkey '(' (by unfold Neutral; decide) (Option.some.inj this.2)
  · have := Key.mk.inj (Option.some.inj he)
    exact hkey ')' (by unfold Neutral; decide) (Option.some.inj this.2)

lemma isPassed_of_kind {kind : Kind} {reach : ℕ} (hk : kind ≠ .operator) {z : List Char}
    (h : ∀ depth n, balancedLength .java '(' ')' depth n (text ++ z) =
      balancedLength .java '(' ')' depth (n + text.length) z) :
    (⟨.token kind text reach, text⟩ : Segment).IsPassed z := by
  refine ⟨fun he => hk ?_, fun he => hk ?_, h⟩
  · exact (Key.mk.inj (Option.some.inj he)).1
  · exact (Key.mk.inj (Option.some.inj he)).1

lemma eq_of_plain {kind : Kind} (hs : s.text = c :: u) (h : Reading.plain kind c (u ++ z) k = ⟨s.role, u.length⟩) :
    k = u.length ∧ s = ⟨.token kind (c :: u) (k + 1), c :: u⟩ := by
  obtain ⟨role, text⟩ := s
  obtain ⟨rfl, rfl⟩ := Reading.mk.inj h
  rw [List.take_left] at h ⊢
  exact ⟨rfl, by rw [show text = c :: u from hs]⟩

lemma markedLiteral?_java (word : String) (n : ℕ) (behind : List Char) : markedLiteral? .java word n behind = none := by
  cases behind with
  | nil => rfl
  | cons quote rest => simp [markedLiteral?, Language.java]

lemma balancedLength_literal {fault : Fault}
    (h : (Extent.string .java '"' 0 (u ++ z)).settle true fault = .ok u.length)
    (ht : ∀ body, '"' :: u = ['"', '"', '"'] ++ body ++ ['"', '"', '"'] →
      Extent.literal (Language.java.stringDelimiter '"') 0 (body ++ ['"']) = .closed (body.length + 1)) (depth n : ℕ) :
    balancedLength .java '(' ')' depth n ('"' :: u ++ z) =
      balancedLength .java '(' ')' depth (n + ('"' :: u).length) z := by
  have hclosed : Extent.string .java '"' 0 (u ++ z) = .closed u.length := by
    cases he : Extent.string .java '"' 0 (u ++ z) with
    | closed k => rw [he] at h; exact congrArg Extent.closed (Except.ok.inj h)
    | unclosed k => rw [he] at h; simp [Extent.settle] at h
  rw [Extent.string] at hclosed
  split at hclosed
  · next hq =>
    obtain ⟨w, hw⟩ := List.isPrefixOf_iff_prefix.mp hq.2
    rw [← hw] at hclosed
    obtain ⟨body, behind, rfl, hlength⟩ := Extent.tripleQuoted_closed hclosed
    have happend : u ++ z = (['"', '"'] ++ (body ++ ['"', '"', '"'])) ++ behind := by
      rw [← hw]
      simp
    obtain ⟨rfl, rfl⟩ := List.append_inj happend (by rw [hlength]; simp; omega)
    have := balancedLength_textBlock (ht body (by simp)) depth n z
    simpa [Nat.add_assoc] using this
  · rw [List.cons_append, balancedLength_string hclosed, List.drop_left, List.length_cons, Nat.add_assoc,
      Nat.add_comm 1]

lemma isMatched_operator (hs : s.text = c :: u) (hc : c ≠ '"')
    (h : readOperator .java c (u ++ z) = .ok ⟨s.role, u.length⟩) : s.IsMatched z := by
  rw [readOperator] at h
  rcases operatorLength_eq .java (c :: (u ++ z)) with hn | ⟨op, hop, hpre, hn⟩
  · rw [hn] at h
    dsimp only at h
    split at h
    · exact absurd h (by simp)
    · obtain ⟨hlength, rfl⟩ := eq_of_plain hs (Except.ok.inj h)
      obtain rfl := List.length_eq_zero_iff.mp hlength.symm
      by_cases hopen : c = '('
      · exact .inl ⟨by rw [hopen]; rfl, by rw [hopen]⟩
      · by_cases hclose : c = ')'
        · exact .inr (.inl ⟨by rw [hclose]; rfl, by rw [hclose]⟩)
        · refine .inr (.inr (isPassed_of_neutral (List.forall_mem_singleton.mpr ?_) z))
          simpa [Neutral] using ⟨hc, hopen, hclose⟩
  · obtain ⟨x, t, ht⟩ := exists_operator_cons java_mem_builtin hop
    have hneutral : ∀ y ∈ op.toList, Neutral y := by
      intro y hy
      have := List.all_eq_true.mp (List.all_eq_true.mp neutral_operators op hop) y hy
      simpa [Neutral, and_assoc] using this
    rw [ht] at hpre hn hneutral
    obtain ⟨rfl, behind, htail⟩ := List.cons_prefix_cons.mp hpre
    rw [← hn, List.length_cons] at h
    obtain ⟨hlength, rfl⟩ := eq_of_plain hs (Except.ok.inj h)
    obtain ⟨rfl, -⟩ := List.append_inj htail hlength
    exact .inr (.inr (isPassed_of_neutral hneutral z))

lemma isMatched_of_readToken (hs : s.text = c :: u) (h : readToken .java ls c (u ++ z) = .ok ⟨s.role, u.length⟩)
    (ht : s.IsTransparent)
    (hk : ∀ kind image reach, s.role = .token kind image reach → kind ≠ .metadata ∧ kind ≠ .directive) :
    s.IsMatched z := by
  by_cases hc : c = '"'
  · subst hc
    rw [readToken_quote (by decide)] at h
    obtain ⟨k, hlength, h⟩ := map_eq_ok.mp h
    obtain ⟨rfl, rfl⟩ := eq_of_plain hs h
    exact .inr (.inr (isPassed_of_kind (by decide) (balancedLength_literal hlength ht)))
  revert h
  refine readToken_cases (P := fun x => x = .ok ⟨s.role, u.length⟩ → s.IsMatched z) ?preprocessorLine ?metadata
    ?verbatimString ?word ?number ?string ?otherLiteral (isMatched_operator hs hc)
  case preprocessorLine =>
    intro r hr
    exact absurd hr (by simp [readPreprocessorLine?, Language.java])
  case metadata =>
    intro x hx h
    obtain ⟨length, -, rfl⟩ := Option.map_eq_some_iff.mp hx
    obtain ⟨k, -, h⟩ := map_eq_ok.mp h
    exact absurd rfl (hk _ _ _ (Reading.mk.inj h).1.symm).1
  case verbatimString =>
    intro x hx
    exact absurd hx (by simp [readVerbatimString?, Language.java])
  case word =>
    intro x hx h
    obtain ⟨ho, ⟨⟩⟩ := Option.ite_none_right_eq_some.mp hx
    rw [markedLiteral?_java] at h
    dsimp only at h
    split at h
    · exact absurd rfl (hk _ _ _ (Reading.mk.inj (Except.ok.inj h)).1.symm).2
    · obtain ⟨hlength, rfl⟩ := eq_of_plain hs (Except.ok.inj h)
      refine .inr (.inr (isPassed_of_neutral (List.forall_mem_cons.mpr ⟨?_, fun x hx => ?_⟩) z))
      · exact neutral_of_continuesWord (Language.continuesWord_of_opensWord _ ho)
      · have hu : u = (u ++ z).takeWhile Language.java.continuesWord :=
          (List.prefix_of_prefix_length_le (List.prefix_append u z) (List.takeWhile_prefix _)
            hlength.ge).eq_of_length hlength.symm
        exact neutral_of_continuesWord (List.mem_takeWhile_imp (hu ▸ hx))
  case number =>
    intro r hr h
    obtain ⟨ho, ⟨⟩⟩ := Option.ite_none_right_eq_some.mp hr
    obtain ⟨hlength, rfl⟩ := eq_of_plain hs (Except.ok.inj h)
    obtain ⟨body, behind, hbody, hn, hneutral⟩ := numberLength_eq (opensHex c (u ++ z)) false 0 (u ++ z)
    obtain ⟨rfl, -⟩ := List.append_inj hbody (by omega)
    refine .inr (.inr (isPassed_of_neutral (List.forall_mem_cons.mpr ⟨?_, fun x hx => (hneutral x hx).neutral⟩) z))
    simp only [opensNumber, Bool.or_eq_true, Bool.and_eq_true, decide_eq_true_eq] at ho
    refine IsNumeral.neutral (ho.imp (fun hd => ?_) fun hd => .inr hd.1)
    simp [continuesNumber, Char.isAlphanum, hd]
  case string =>
    intro x hx
    obtain ⟨hq, -⟩ := Option.ite_none_right_eq_some.mp hx
    exact absurd hq (by simpa [Language.java] using hc)
  case otherLiteral =>
    intro x hx h
    obtain ⟨d, hd, rfl⟩ := Option.map_eq_some_iff.mp hx
    obtain rfl : d = Delimiter.char := List.mem_singleton.mp (List.mem_of_find?_eq_some hd)
    rw [if_neg (by simp [opensLifetime, Language.java])] at h
    obtain ⟨k, -, h⟩ := map_eq_ok.mp h
    obtain ⟨-, rfl⟩ := eq_of_plain hs h
    exact .inr (.inr (isPassed_of_neutral ht z))

lemma IsRead.isMatched (h : IsRead .java ls s z) (ht : s.IsTransparent)
    (hk : ∀ kind image reach, s.role = .token kind image reach → kind ≠ .metadata ∧ kind ≠ .directive) :
    s.IsMatched z := by
  obtain ⟨c, u, hs, hr⟩ := h
  have hnone : ∀ {t : Segment}, t.isToken = false → (∀ x ∈ t.text, Neutral x) → t.IsPassed z := by
    intro t htoken htext
    rw [Segment.IsPassed, key?_of_not_isToken htoken]
    exact ⟨by simp, by simp, fun depth n => balancedLength_skip htext depth n z⟩
  rcases read_eq_ok hr with ⟨hc, he⟩ | ⟨-, ⟨-, he⟩ | ⟨-, ⟨-, k, -, he⟩ | ⟨-, hr⟩⟩⟩
  · obtain ⟨hrole, hlength⟩ := Reading.mk.inj he
    obtain rfl := List.length_eq_zero_iff.mp hlength
    refine .inr (.inr (hnone (by rw [Segment.isToken, hrole]) ?_))
    rw [hs]
    exact List.forall_mem_singleton.mpr (neutral_of_isBlank hc)
  · have hrole := (Reading.mk.inj he).1
    refine .inr (.inr (hnone (by rw [Segment.isToken, hrole]) ?_))
    rwa [Segment.IsTransparent, hrole] at ht
  · have hrole := (Reading.mk.inj he).1
    refine .inr (.inr (hnone (by rw [Segment.isToken, hrole]) ?_))
    rwa [Segment.IsTransparent, hrole] at ht
  · exact isMatched_of_readToken hs hr ht hk

/-! ### Brackets among keys -/

/-- The last key closes the bracket that the first one opens. -/
structure IsBracketed (keys : List Key) : Prop where
  first : keys.head? = some opening
  opened : ∀ k < keys.length, 0 < k → (keys.take k).count closing < (keys.take k).count opening
  balanced : keys.count closing = keys.count opening

instance : DecidablePred IsBracketed := fun keys =>
  decidable_of_iff (keys.head? = some opening ∧
    (∀ k < keys.length, 0 < k → (keys.take k).count closing < (keys.take k).count opening) ∧
      keys.count closing = keys.count opening)
    ⟨fun h => ⟨h.1, h.2.1, h.2.2⟩, fun h => ⟨h.first, h.opened, h.balanced⟩⟩

structure Closes (depth : ℕ) (keys : List Key) : Prop where
  opened : ∀ k < keys.length, (keys.take k).count closing < depth + (keys.take k).count opening
  balanced : keys.count closing = depth + keys.count opening

variable {keys : List Key} {key : Key}

lemma opening_ne_closing : opening ≠ closing := by decide

lemma IsBracketed.closes (h : IsBracketed (opening :: keys)) : Closes 1 keys where
  opened k hk := by
    have := h.opened (k + 1) (by simpa using hk) k.succ_pos
    rw [List.take_succ_cons, List.count_cons_of_ne opening_ne_closing, List.count_cons_self] at this
    omega
  balanced := by
    have := h.balanced
    rw [List.count_cons_of_ne opening_ne_closing, List.count_cons_self] at this
    omega

lemma Closes.of_opening (h : Closes depth (opening :: keys)) : Closes (depth + 1) keys where
  opened k hk := by
    have := h.opened (k + 1) (by simpa using hk)
    rw [List.take_succ_cons, List.count_cons_of_ne opening_ne_closing, List.count_cons_self] at this
    omega
  balanced := by
    have := h.balanced
    rw [List.count_cons_of_ne opening_ne_closing, List.count_cons_self] at this
    omega

lemma Closes.of_ne (h : Closes depth (key :: keys)) (ho : key ≠ opening) (hc : key ≠ closing) : Closes depth keys where
  opened k hk := by
    have := h.opened (k + 1) (by simpa using hk)
    rwa [List.take_succ_cons, List.count_cons_of_ne ho, List.count_cons_of_ne hc] at this
  balanced := by
    have := h.balanced
    rwa [List.count_cons_of_ne ho, List.count_cons_of_ne hc] at this

lemma Closes.of_closing (h : Closes depth (closing :: keys)) :
    depth = 1 ∧ keys = [] ∨ 1 < depth ∧ Closes (depth - 1) keys := by
  have hbalanced := h.balanced
  rw [List.count_cons_self, List.count_cons_of_ne opening_ne_closing.symm] at hbalanced
  have hopened : ∀ k < keys.length, (keys.take k).count closing + 1 < depth + (keys.take k).count opening := by
    intro k hk
    have := h.opened (k + 1) (by simpa using hk)
    rwa [List.take_succ_cons, List.count_cons_self, List.count_cons_of_ne opening_ne_closing.symm] at this
  cases keys with
  | nil => exact .inl ⟨by simpa using hbalanced.symm, rfl⟩
  | cons key keys =>
    have hdepth := hopened 0 (by simp)
    simp only [List.take_zero, List.count_nil] at hdepth
    refine .inr ⟨by omega, fun k hk => ?_, by omega⟩
    have := hopened k hk
    omega

lemma exists_key?_of_isToken (h : s.isToken = true) : ∃ key, s.key? = some key := by
  obtain ⟨role, text⟩ := s
  cases role with
  | token kind image reach => exact ⟨_, rfl⟩
  | blank => simp [Segment.isToken] at h
  | comment => simp [Segment.isToken] at h

lemma eq_nil_of_keysOf (hlast : ∀ s, ss.getLast? = some s → s.isToken = true) (h : keysOf ss = []) : ss = [] := by
  by_contra hne
  obtain ⟨key, hkey⟩ := exists_key?_of_isToken (hlast _ (List.getLast?_eq_some_getLast hne))
  have hnone := List.filterMap_eq_nil_iff.mp h _ (List.getLast_mem hne)
  exact absurd (hkey.symm.trans hnone) (by simp)

lemma balancedLength_textOf (h : AreRead .java ls ss []) (ht : ∀ s ∈ ss, s.IsTransparent)
    (hk : ∀ s ∈ ss, ∀ kind image reach, s.role = .token kind image reach → kind ≠ .metadata ∧ kind ≠ .directive)
    (hlast : ∀ s, ss.getLast? = some s → s.isToken = true) (hd : 0 < depth) (hc : Closes depth (keysOf ss)) :
    balancedLength .java '(' ')' depth n (textOf ss) = .ok (n + (textOf ss).length) := by
  induction ss generalizing ls depth n with
  | nil =>
    have := hc.balanced
    simp [keysOf] at this
    omega
  | cons s ss ih =>
    obtain ⟨hs, h⟩ := h
    have ih : ∀ depth n, 0 < depth → Closes depth (keysOf ss) →
        balancedLength .java '(' ')' depth n (textOf ss) = .ok (n + (textOf ss).length) := fun _ _ =>
      ih h (fun s hs => ht s (List.mem_cons_of_mem _ hs)) (fun s hs => hk s (List.mem_cons_of_mem _ hs))
      (fun t ht => hlast t (by rw [List.getLast?_cons, ht]; rfl))
    have hmatched := hs.isMatched (ht s List.mem_cons_self) (hk s List.mem_cons_self)
    rw [List.append_nil] at hmatched
    rw [keysOf_cons] at hc
    rw [textOf_cons, List.length_append]
    rcases hmatched with ⟨hkey, htext⟩ | ⟨hkey, htext⟩ | ⟨ho, hcl, hpass⟩
    · rw [hkey] at hc
      rw [htext, List.singleton_append, balancedLength_open, ih _ _ depth.succ_pos hc.of_opening, List.length_singleton,
        Nat.add_assoc]
    · rw [hkey] at hc
      rw [htext, List.singleton_append, balancedLength_close]
      rcases hc.of_closing with ⟨rfl, hnil⟩ | ⟨hlt, hc⟩
      · have hss : ss = [] := eq_nil_of_keysOf (fun t ht => hlast t (by rw [List.getLast?_cons, ht]; rfl)) hnil
        rw [if_pos le_rfl, hss]
        rfl
      · rw [if_neg (by omega), ih _ _ (by omega) hc, List.length_singleton, Nat.add_assoc]
    · rw [hpass]
      cases hkey : s.key? with
      | none =>
        rw [hkey] at hc
        rw [ih _ _ hd hc, Nat.add_assoc]
      | some key =>
        rw [hkey] at hc ho hcl
        rw [ih _ _ hd (hc.of_ne (fun he => ho (congrArg some he)) fun he => hcl (congrArg some he)), Nat.add_assoc]

lemma balancedLength_bracketed (h : AreRead .java ls ss []) (ht : ∀ s ∈ ss, s.IsTransparent)
    (hk : ∀ s ∈ ss, ∀ kind image reach, s.role = .token kind image reach → kind ≠ .metadata ∧ kind ≠ .directive)
    (hlast : ∀ s, ss.getLast? = some s → s.isToken = true) (hb : IsBracketed (keysOf ss)) :
    balancedLength .java '(' ')' 0 n (textOf ss) = .ok (n + (textOf ss).length) := by
  induction ss generalizing ls n with
  | nil => exact absurd hb.first (by simp [keysOf])
  | cons s ss ih =>
    obtain ⟨hs, h⟩ := h
    have ht' := fun s hs => ht s (List.mem_cons_of_mem _ hs)
    have hk' := fun s hs => hk s (List.mem_cons_of_mem _ hs)
    have hlast' : ∀ t, ss.getLast? = some t → t.isToken = true := fun t ht =>
      hlast t (by rw [List.getLast?_cons, ht]; rfl)
    have hmatched := hs.isMatched (ht s List.mem_cons_self) (hk s List.mem_cons_self)
    rw [List.append_nil] at hmatched
    rw [keysOf_cons] at hb
    rw [textOf_cons, List.length_append]
    cases hkey : s.key? with
    | none =>
      rw [hkey] at hb
      obtain ⟨-, -, hpass⟩ := (hmatched.resolve_left (by simp [hkey])).resolve_left (by simp [hkey])
      rw [hpass, ih h ht' hk' hlast' hb, Nat.add_assoc]
    | some key =>
      rw [hkey] at hb
      obtain rfl : key = opening := Option.some.inj hb.first
      obtain ⟨-, htext⟩ := hmatched.resolve_right (by simp [Segment.IsPassed, hkey, opening_ne_closing])
      rw [htext, List.singleton_append, balancedLength_open,
        balancedLength_textOf h ht' hk' hlast' Nat.one_pos hb.closes, List.length_singleton, Nat.add_assoc]

lemma isToken_of_getLast? (ht : ∀ s ∈ ss, s.IsTransparent) (h : AreRead .java ls ss [])
    (htext : (textOf ss).getLast? = some ')') (hs : ss.getLast? = some s) : s.isToken = true := by
  obtain ⟨init, rfl⟩ := List.getLast?_eq_some_iff.mp hs
  obtain ⟨-, ⟨c, u, hcu, hr⟩, -⟩ := areRead_append.mp h
  have hmem : ')' ∈ s.text := by
    rw [textOf_append, textOf_cons, textOf_nil, List.append_nil,
      List.getLast?_append_of_ne_nil _ (by simp [hcu])] at htext
    exact List.mem_of_getLast? htext
  have hneutral : ¬ Neutral ')' := by
    unfold Neutral
    decide
  have ht := ht s (by simp)
  obtain ⟨role, text⟩ := s
  cases role with
  | token => rfl
  | comment => exact absurd (ht _ hmem) hneutral
  | blank =>
    obtain ⟨hc, hu⟩ := read_eq_blank hr
    obtain rfl := List.length_eq_zero_iff.mp hu
    rw [hcu, List.mem_singleton] at hmem
    exact absurd (hmem ▸ neutral_of_isBlank hc) hneutral

/-! ### Metadata with arguments -/

lemma metadataName?_append (hopens : name.head?.any Language.java.opensWord = true)
    (hword : ∀ x ∈ name, Language.java.continuesWord x = true) (hne : name ≠ "interface".toList) :
    metadataName? .java (name ++ '(' :: text) = some name := by
  have hname : (name ++ '(' :: text).takeWhile (fun c => Language.java.continuesWord c || c = '.') = name := by
    rw [List.takeWhile_append_of_pos fun x hx => by simp [hword x hx], List.takeWhile_cons_of_neg (by decide),
      List.append_nil]
  rw [metadataName?, hname, if_pos]
  rw [Bool.and_eq_true]
  exact ⟨hopens, decide_eq_true hne⟩

lemma cut_single {role : Role} (h : read .java true c rest = .ok ⟨role, rest.length⟩) :
    cut .java (c :: rest) = ⟨[⟨role, c :: rest⟩], [], none⟩ := by
  have hread : AreRead .java true [⟨role, c :: rest⟩] [] := ⟨⟨c, rest, rfl, by simpa using h⟩, trivial⟩
  have hcut := cutOnto_textOf hread
  rw [textOf_cons, textOf_nil, List.append_nil, List.append_nil] at hcut
  rw [cut, hcut, cutOnto]
  rfl

lemma read_metadata {length : ℕ} (hname : metadataName? .java (name ++ '(' :: text) = some name)
    (h : balancedLength .java '(' ')' 0 name.length ('(' :: text) = .ok length) (ls : Bool) :
    read .java ls '@' (name ++ '(' :: text) = .ok
      ⟨.token .metadata (('@' :: (name ++ '(' :: text).take length).filter fun c => !Text.isBlank c) (length + 1),
        length⟩ := by
  have hnamed : namedLength? .java (name ++ '(' :: text) = some (.ok length) := by
    rw [namedLength?, hname, Option.map_some, List.drop_left]
    dsimp only
    rw [List.head?_cons, if_pos rfl, h]
  have hmetadata : metadataLength? .java ls '@' (name ++ '(' :: text) = some (.ok length) := hnamed
  rw [read_of_not_opens (by decide) rfl rfl, readToken, readMetadata?, hmetadata]
  rfl

end Source

lemma Language.balancedLength_arguments {text : List Char} {file : ℕ}
    (herror : (java.tokenize (String.ofList ('(' :: (text ++ [')']))) file {}).error = none)
    (hkinds : ∀ t ∈ (java.tokenize (String.ofList ('(' :: (text ++ [')']))) file {}).tokens,
      t.kind ≠ .metadata ∧ t.kind ≠ .directive)
    (hbrackets : IsBracketed ((java.tokenize (String.ofList ('(' :: (text ++ [')']))) file {}).tokens.map Token.key))
    (htransparent : ∀ s ∈ (cut java ('(' :: (text ++ [')']))).segments, s.IsTransparent) (n : ℕ) :
    balancedLength .java '(' ')' 0 n ('(' :: (text ++ [')'])) = .ok (n + ('(' :: (text ++ [')'])).length) := by
  have hcut := isCut_cut java_mem_builtin ('(' :: (text ++ [')']))
  have hstream : java.tokenize (String.ofList ('(' :: (text ++ [')']))) file {} =
      (cut java ('(' :: (text ++ [')']))).stream file := by
    rw [tokenize_default, String.toList_ofList]
    rfl
  rw [hstream] at herror hkinds hbrackets
  generalize cut java ('(' :: (text ++ [')'])) = k at *
  obtain ⟨segments, unread, failure⟩ := k
  obtain rfl : failure = none := Option.map_eq_none_iff.mp herror
  obtain rfl : unread = [] := hcut.unread_eq_nil rfl
  have htext := hcut.text_eq
  rw [List.append_nil] at htext
  have hkeys : ((⟨segments, [], none⟩ : Cut).stream file).tokens.map Token.key = keysOf segments :=
    map_key_tokensOnto file .start segments
  rw [hkeys] at hbrackets
  have hk : ∀ s ∈ segments, ∀ kind image reach, s.role = .token kind image reach →
      kind ≠ .metadata ∧ kind ≠ .directive := by
    intro s hs kind image reach hrole
    obtain ⟨t, ht, hkey⟩ := exists_token_of_mem hs hrole file .start
    have hkind : t.kind = kind := congrArg Key.kind hkey
    exact hkind ▸ hkinds t ht
  have hlast := fun s => isToken_of_getLast? (s := s) htransparent hcut.read
    (by rw [htext, ← List.cons_append, List.getLast?_concat])
  rw [← htext]
  exact balancedLength_bracketed hcut.read htransparent hk hlast hbrackets

lemma Language.tokenize_metadata {name text : List Char} {file : ℕ}
    (hname : metadataName? .java (name ++ '(' :: text) = some name)
    (h : balancedLength .java '(' ')' 0 name.length ('(' :: text) = .ok (name ++ '(' :: text).length) :
    java.tokenize (String.ofList ('@' :: (name ++ '(' :: text))) file {} =
      ⟨[⟨.metadata, some (String.ofList (('@' :: (name ++ '(' :: text)).filter fun c => !Text.isBlank c)), file, .start,
        Position.start.afterText (('@' :: (name ++ '(' :: text)).take (name ++ '(' :: text).length)⟩], none⟩ := by
  have hread := read_metadata hname h true
  rw [List.take_length] at hread
  have hbom : dropByteOrderMark ('@' :: (name ++ '(' :: text)) = '@' :: (name ++ '(' :: text) := rfl
  rw [tokenize_default, String.toList_ofList, hbom, cut_single hread]
  rfl

/-- The arguments of metadata end where the brackets among their tokens do, if everything between them is taken for what
it is by the matching of brackets. -/
theorem Language.tokenize_arguments {name text : List Char} {file : ℕ}
    (hopens : name.head?.any Language.java.opensWord = true)
    (hword : ∀ x ∈ name, Language.java.continuesWord x = true) (hne : name ≠ "interface".toList)
    (herror : (java.tokenize (String.ofList ('(' :: (text ++ [')']))) file {}).error = none)
    (hkinds : ∀ t ∈ (java.tokenize (String.ofList ('(' :: (text ++ [')']))) file {}).tokens,
      t.kind ≠ .metadata ∧ t.kind ≠ .directive)
    (hbrackets : IsBracketed ((java.tokenize (String.ofList ('(' :: (text ++ [')']))) file {}).tokens.map Token.key))
    (htransparent : ∀ s ∈ (cut java ('(' :: (text ++ [')']))).segments, s.IsTransparent) :
    java.tokenize (String.ofList ('@' :: (name ++ '(' :: (text ++ [')'])))) file {} =
      ⟨[⟨.metadata, some (String.ofList (('@' :: (name ++ '(' :: (text ++ [')']))).filter fun c => !Text.isBlank c)),
        file, .start, Position.start.afterText ('@' :: (name ++ '(' :: text))⟩], none⟩ := by
  have hlength := balancedLength_arguments herror hkinds hbrackets htransparent name.length
  rw [← List.length_append] at hlength
  have hlast : ('@' :: (name ++ '(' :: (text ++ [')']))).take (name ++ '(' :: (text ++ [')'])).length =
      '@' :: (name ++ '(' :: text) := by
    rw [show '@' :: (name ++ '(' :: (text ++ [')'])) = ('@' :: (name ++ '(' :: text)) ++ [')'] by simp]
    exact List.take_left' (by simp [Nat.add_assoc])
  rw [tokenize_metadata (metadataName?_append hopens hword hne) hlength, hlast]

set_option maxRecDepth 20000 in
theorem Language.tokenize_arguments_string :
    (java.tokenize (String.ofList ('(' :: ("\")\"/*a*/".toList ++ [')']))) 0 {}).error = none ∧
    java.tokenize (String.ofList ('@' :: ("N".toList ++ '(' :: ("\")\"/*a*/".toList ++ [')'])))) 0 {} =
      ⟨[⟨.metadata, some "@N(\")\"/*a*/)", 0, ⟨1, 1⟩, ⟨1, 12⟩⟩], none⟩ := by
  have hsegments : (cut java ('(' :: ("\")\"/*a*/".toList ++ [')']))).segments =
      [⟨.token .operator ['('] 1, ['(']⟩, ⟨.token .string ['"', ')', '"'] 3, ['"', ')', '"']⟩,
        ⟨.comment, "/*a*/".toList⟩, ⟨.token .operator [')'] 1, [')']⟩] := by
    cbv
  have hstream : java.tokenize (String.ofList ('(' :: ("\")\"/*a*/".toList ++ [')']))) 0 {} =
      ⟨[⟨.operator, some "(", 0, ⟨1, 1⟩, ⟨1, 1⟩⟩, ⟨.string, some "\")\"", 0, ⟨1, 2⟩, ⟨1, 4⟩⟩,
        ⟨.operator, some ")", 0, ⟨1, 10⟩, ⟨1, 10⟩⟩], none⟩ := by
    cbv
  have hword : ∀ x ∈ "N".toList, java.continuesWord x = true := by
    intro x hx
    obtain rfl := List.mem_singleton.mp hx
    cbv
  refine ⟨by rw [hstream], (tokenize_arguments (by cbv) hword (by simp) (by rw [hstream]) ?_ ?_ ?_).trans (by cbv)⟩
  · rw [hstream]
    simp
  · rw [hstream]
    exact of_decide_eq_true (by cbv)
  · rw [hsegments]
    simp [Segment.IsTransparent, Neutral]

set_option maxRecDepth 20000 in
/-- A bracket in apostrophes ends the arguments, though it is none among their tokens. -/
theorem Language.character_ends_arguments : ¬ ∀ name text : List Char,
    name.head?.any Language.java.opensWord = true → (∀ x ∈ name, Language.java.continuesWord x = true) →
    name ≠ "interface".toList →
    (java.tokenize (String.ofList ('(' :: (text ++ [')']))) 0 {}).error = none →
    (∀ t ∈ (java.tokenize (String.ofList ('(' :: (text ++ [')']))) 0 {}).tokens,
      t.kind ≠ .metadata ∧ t.kind ≠ .directive) →
    IsBracketed ((java.tokenize (String.ofList ('(' :: (text ++ [')']))) 0 {}).tokens.map Token.key) →
    ∃ t, java.tokenize (String.ofList ('@' :: (name ++ '(' :: (text ++ [')'])))) 0 {} = ⟨[t], none⟩ := by
  intro h
  have hstream : java.tokenize (String.ofList ('(' :: ("')'".toList ++ [')']))) 0 {} =
      ⟨[⟨.operator, some "(", 0, ⟨1, 1⟩, ⟨1, 1⟩⟩, ⟨.char, some "')'", 0, ⟨1, 2⟩, ⟨1, 4⟩⟩,
        ⟨.operator, some ")", 0, ⟨1, 5⟩, ⟨1, 5⟩⟩], none⟩ := by
    cbv
  have hbroken : (cut java ('@' :: ("A".toList ++ '(' :: ("')'".toList ++ [')'])))).failure.isSome = true := by
    cbv
  have hword : ∀ x ∈ "A".toList, java.continuesWord x = true := by
    intro x hx
    obtain rfl := List.mem_singleton.mp hx
    cbv
  obtain ⟨t, ht⟩ := h "A".toList "')'".toList (by cbv) hword (by simp) (by rw [hstream])
    (by rw [hstream]; simp) (by rw [hstream]; exact of_decide_eq_true (by cbv))
  rw [tokenize_default, String.toList_ofList] at ht
  have hnone := Option.map_eq_none_iff.mp (congrArg TokenStream.error ht)
  exact absurd (hbroken.symm.trans (congrArg Option.isSome hnone)) (by simp)

end CodeClones
