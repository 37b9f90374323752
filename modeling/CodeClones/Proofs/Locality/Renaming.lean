import Mathlib.Data.List.Induction
import CodeClones.Proofs.Locality.Segments
import CodeClones.Proofs.Source.Places
import CodeClones.Proofs.Source.Trivia

/-! Names do not matter if normalization leaves them out: one word between blanks can stand for another. -/

namespace CodeClones

open Source in
/-- In the text between `before` and `behind`, where a token of the given kind stands alone, another word can stand
that is a token of this kind by itself. Normalization leaves the images of such tokens out. -/
structure IsRenaming (l : Language) (n : Normalization) (kind : Kind) (before old behind new : List Char) : Prop where
  token : ∃ done image reach following, (cut l (dropByteOrderMark (before ++ old ++ behind))).segments =
      done ++ ⟨.token kind image reach, old⟩ :: following ∧ textOf done = dropByteOrderMark before ∧
    ∀ word ∈ l.directiveWords, (keysOf done).getLast? ≠ some ⟨.keyword, some word⟩
  collapses : n.collapses kind = true
  blankBefore : ∀ x, (dropByteOrderMark before).getLast? = some x → Text.isBlank x = true
  blankBehind : ∀ x, behind.head? = some x → Text.isBlank x = true
  alone : ∃ t, l.tokenize (String.ofList (new ++ [' '])) 0 {} = ⟨[t], none⟩ ∧ t.key = ⟨kind, some (String.ofList new)⟩

lemma Normalization.of_collapses {n : Normalization} {kind : Kind} (h : n.collapses kind = true) :
    kind ≠ .operator ∧ kind ≠ .metadata ∧ kind ≠ .directive ∧ n.drops kind = false := by
  cases kind <;> simp_all [collapses, drops, Kind.isLiteral]

namespace Source

variable {l : Language} {lineStart : Bool} {c d x : Char} {n : Normalization} {k reach : ℕ}
  {t u z v word before old behind new image : List Char} {ss done : List Segment} {kind : Kind}

/-! ### Tokens that are the same anywhere on a line -/

lemma metadataLength?_of_lineStart (h : metadataLength? l true c u = none) : metadataLength? l false c u = none := by
  rw [metadataLength?] at h ⊢
  split
  · rfl
  · next hm => rwa [hm] at h
  · simp
  · next hm => rwa [hm] at h

lemma readWord?_of_lineStart {f : Except Failure Reading} (h : readWord? l true c u = some f)
    (hr : ∀ image reach k, f ≠ .ok ⟨.token .directive image reach, k⟩) : readWord? l false c u = some f := by
  rw [readWord?, Option.ite_none_right_eq_some] at h
  obtain ⟨hc, h⟩ := h
  rw [readWord?, if_pos hc, ← h]
  dsimp only at h ⊢
  generalize markedLiteral? l (String.ofList (c :: u.takeWhile l.continuesWord)) (u.takeWhile l.continuesWord).length
    (u.drop (u.takeWhile l.continuesWord).length) = literal at h ⊢
  cases literal with
  | some literal => rfl
  | none =>
    dsimp only at h ⊢
    split at h
    · exact absurd (Option.some.inj h).symm (hr _ _ _)
    · next ho => rw [if_neg ho, Bool.false_and, Bool.false_and, if_neg Bool.false_ne_true]

lemma readToken_of_lineStart (h : readToken l true c u = .ok ⟨.token kind image reach, k⟩) (hm : kind ≠ .metadata)
    (hd : kind ≠ .directive) : readToken l false c u = .ok ⟨.token kind image reach, k⟩ := by
  have hpre : readPreprocessorLine? l true c u = none := by
    cases hp : readPreprocessorLine? l true c u with
    | none => rfl
    | some r =>
      obtain ⟨-, hr⟩ := Option.ite_none_right_eq_some.mp hp
      obtain rfl : r = ⟨.token kind image reach, k⟩ := by simpa [readToken, hp] using h
      cases hr
      exact absurd rfl hd
  have hmeta : readMetadata? l true c u = none := by
    cases hx : readMetadata? l true c u with
    | none => rfl
    | some x =>
      obtain ⟨length, -, rfl⟩ := Option.map_eq_some_iff.mp hx
      simp only [readToken, hpre, hx] at h
      obtain ⟨m, -, ⟨⟩⟩ := Success.map_eq_ok.mp h
      exact absurd rfl hm
  have hmeta' : readMetadata? l false c u = none := by
    rw [readMetadata?, Option.map_eq_none_iff] at hmeta ⊢
    exact metadataLength?_of_lineStart hmeta
  rw [readToken, hpre, hmeta] at h
  rw [readToken, hmeta', show readPreprocessorLine? l false c u = none by simp [readPreprocessorLine?]]
  cases hv : readVerbatimString? l c u with
  | some f => rwa [hv] at h
  | none =>
    cases hw : readWord? l true c u with
    | some f =>
      obtain rfl : f = .ok ⟨.token kind image reach, k⟩ := by simpa [hv, hw] using h
      rw [readWord?_of_lineStart hw fun _ _ _ he => by cases he; exact hd rfl]
      rfl
    | none =>
      have hw' : readWord? l false c u = none := by
        rw [readWord?] at hw ⊢
        split at hw
        · simp at hw
        · next hc => rw [if_neg hc]
      rw [hv, hw] at h
      rwa [hw']

lemma read_of_lineStart (h : read l true c u = .ok ⟨.token kind image reach, k⟩) (hm : kind ≠ .metadata)
    (hd : kind ≠ .directive) (lineStart : Bool) : read l lineStart c u = .ok ⟨.token kind image reach, k⟩ := by
  cases lineStart with
  | true => exact h
  | false =>
    obtain ⟨hc, hline, hblock, hr⟩ := read_eq_token h
    rw [read_of_not_opens hc hline hblock, readToken_of_lineStart hr hm hd]

lemma read_eq_readToken (hl : l ∈ Language.builtin) (hc : Text.isBlank c = false) (hslash : c ≠ '/') (hsign : c ≠ '#')
    (lineStart : Bool) (u : List Char) : read l lineStart c u = readToken l lineStart c u := by
  refine read_of_not_opens hc ?_ ?_ lineStart
  · refine Bool.eq_false_iff.mpr fun h => ?_
    rcases mark_of_opensLineComment hl h with ⟨h, -⟩ | ⟨h, -⟩
    · exact hslash h
    · exact hsign h
  · exact Bool.eq_false_iff.mpr fun h => hslash (slash_of_opensBlockComment h).2.1

/-! ### Words that directives begin with -/

lemma builtin_directiveWords : Language.builtin.all (fun l => l.directiveWords.all fun word =>
    l.keywords.contains word && word.toList.head?.any fun c =>
      l.opensWord c && !(['/', '#', '@', '$'].contains c)) = true := by
  decide +kernel

lemma read_directiveWord (hl : l ∈ Language.builtin) (hword : String.ofList (c :: word) ∈ l.directiveWords)
    (hall : ∀ x ∈ word, l.continuesWord x = true) (hz : Breaking l z) (hclosed : opensDirective l z = false)
    (lineStart : Bool) :
    read l lineStart c (word ++ z) = .ok ⟨.token .keyword (c :: word) (word.length + 1), word.length⟩ := by
  have hw := List.all_eq_true.mp (List.all_eq_true.mp builtin_directiveWords l hl) _ hword
  simp only [String.toList_ofList, List.head?_cons, Option.any_some, Bool.and_eq_true, Bool.not_eq_true',
    List.contains_eq_mem, List.mem_cons, List.not_mem_nil, or_false, decide_eq_false_iff_not, not_or] at hw
  obtain ⟨hkeyword, hc, hslash, hsign, hat, hdollar⟩ := hw
  have htail : (word ++ z).takeWhile l.continuesWord = word := by
    rw [hz.takeWhile_append fun x hx => hx.continuesWord, List.takeWhile_eq_self_iff.mpr hall]
  have hplain : readWord? l lineStart c (word ++ z) =
      some (.ok ⟨.token .keyword (c :: word) (word.length + 1), word.length⟩) := by
    rw [readWord?, if_pos hc, htail]
    simp only [List.drop_left, markedLiteral?_of_breaking hl hz, hclosed, Bool.and_false, Bool.false_eq_true, if_false,
      List.contains_eq_mem, hkeyword, if_true, Reading.plain, List.take_left]
  have hmeta : readMetadata? l lineStart c (word ++ z) = none := by
    rw [readMetadata?, metadataLength?]
    split <;> simp [hat, hsign]
  have hblank := isBlank_of_continuesWord (l.continuesWord_of_opensWord hc)
  rw [read_eq_readToken hl hblank hslash hsign, readToken, hmeta, hplain]
  simp [readPreprocessorLine?, readVerbatimString?, verbatimMark?, hsign, hat, hdollar]

lemma keysOf_of_blank (h : AreRead l lineStart ss z) (hb : ∀ x ∈ textOf ss, Text.isBlank x = true) :
    keysOf ss = [] := by
  induction ss generalizing lineStart with
  | nil => rfl
  | cons s ss ih =>
    obtain ⟨⟨c, u, hs, hr⟩, h⟩ := h
    rw [textOf_cons, hs] at hb
    rw [read_blank l lineStart (hb c (by simp))] at hr
    have hrole : s.isToken = false := by
      rw [Segment.isToken, ← (Reading.mk.inj (Except.ok.inj hr)).1]
    rw [keysOf_cons_of_not_isToken hrole]
    exact ih h fun x hx => hb x (List.mem_append_right _ hx)

lemma keepExpressions_of_keys (hl : l ∈ Language.builtin) (hx : Text.isBlank x = true)
    (h : AreRead l lineStart ss (x :: z))
    (hkeys : ∀ word ∈ l.directiveWords, (keysOf ss).getLast? ≠ some ⟨.keyword, some word⟩) (v : List Char) :
    KeepExpressions l ss [] (x :: z) (x :: v) := by
  intro ts us hss c u htext hword hclosed
  rw [List.append_nil] at htext
  obtain ⟨rest, hu⟩ := List.takeWhile_prefix (l := u) l.continuesWord
  have hall : ∀ y ∈ u.takeWhile l.continuesWord, l.continuesWord y = true := fun y hy => List.mem_takeWhile_imp hy
  generalize u.takeWhile l.continuesWord = word at hword hclosed hu hall ⊢
  subst hu
  rw [List.drop_left] at hclosed ⊢
  by_cases hspaces : rest.dropWhile isSpace = []
  · by_cases hspace : isSpace x = true
    · -- Only blanks follow the word, so it would be the last token and a directive word.
      have hblank : ∀ y ∈ rest, Text.isBlank y = true := fun y hy =>
        isBlank_of_isSpace (List.dropWhile_eq_nil_iff.mp hspaces y hy)
      cases us with
      | nil => simp at htext
      | cons s us =>
        subst hss
        obtain ⟨⟨c', u, hs, hr⟩, h⟩ := (areRead_append.mp h).2
        rw [textOf_cons, hs, List.cons_append] at htext
        obtain ⟨rfl, htail⟩ := List.cons.inj htext
        have hbreaking : Breaking l (rest ++ x :: z) := by
          intro y hy
          cases rest with
          | nil => exact .inl (Option.some.inj hy ▸ hx)
          | cons e rest => exact .inl (Option.some.inj hy ▸ hblank e List.mem_cons_self)
        rw [← List.append_assoc, htail, List.append_assoc,
          read_directiveWord hl (by simpa using hword) hall hbreaking hclosed] at hr
        obtain ⟨hrole, hlen⟩ := Reading.mk.inj (Except.ok.inj hr)
        obtain ⟨rfl, rfl⟩ := List.append_inj htail hlen.symm
        have hkey : s.key? = some ⟨.keyword, some (String.ofList (c' :: u))⟩ := by rw [Segment.key?, ← hrole]
        refine absurd ?_ (hkeys _ (by simpa using hword))
        rw [keysOf_append, keysOf_cons, hkey, keysOf_of_blank h hblank]
        simp
    · rw [← opensDirective_congr (z := x :: z)]
      · exact hclosed
      · rw [List.dropWhile_cons_of_neg hspace, List.dropWhile_cons_of_neg hspace]
        rfl
  · rwa [opensDirective_append l hspaces] at hclosed ⊢

lemma exists_blank (hl : l ∈ Language.builtin) (h : AreRead l lineStart ss (d :: v)) (hd : Text.isBlank d = false)
    (hline : l.opensLineComment (d :: v) = false) (hx : (textOf ss).getLast? = some x) (hb : Text.isBlank x = true) :
    ∃ ts, ss = ts ++ [⟨.blank, [x]⟩] := by
  cases ss using List.reverseRecOn with
  | nil => simp at hx
  | append_singleton ts s =>
    obtain ⟨c, u, hs, hr⟩ := areRead_singleton.mp (areRead_append.mp h).2
    rw [textOf_append, textOf_cons, textOf_nil, List.append_nil, hs, List.getLast?_append_cons] at hx
    cases hc : Text.isBlank c with
    | true =>
      rw [read_blank l _ hc] at hr
      obtain ⟨hrole, hu⟩ := Reading.mk.inj (Except.ok.inj hr)
      obtain rfl := List.length_eq_zero_iff.mp hu.symm
      obtain rfl : c = x := by simpa using hx
      exact ⟨ts, by rw [hrole, ← hs]⟩
    | false =>
      -- A token or a comment ends with a character that is not blank, or its line ends with it.
      have ha := accounts_read hl hc (flagAfter lineStart ts) (u ++ d :: v)
      rw [hr] at ha
      obtain ⟨body, behind, htext, hlen, he⟩ := ha.takes
      obtain ⟨rfl, rfl⟩ : c :: u = body ∧ d :: v = behind :=
        List.append_inj (by rwa [List.cons_append]) (by simpa using hlen)
      rcases he with ⟨y, hy, hdark⟩ | he | he | he
      · have hlast : some y = some x := hy.symm.trans (by simpa using hx)
        rw [Option.some.inj hlast, hb] at hdark
        exact absurd hdark (by decide)
      · exact absurd he (List.cons_ne_nil d v)
      · rw [Option.some.inj he] at hd
        exact absurd hd (by decide)
      · rw [hline] at he
        exact absurd he (by decide)

/-! ### Words that stand alone -/

lemma kind_of_read_mark (hl : l ∈ Language.builtin)
    (h : read l lineStart '\uFEFF' u = .ok ⟨.token kind image reach, k⟩) : kind = .operator := by
  rw [read_eq_readToken hl (by decide) (by decide) (by decide)] at h
  revert h
  refine readToken_cases (P := fun x => x = .ok _ → _) ?preprocessorLine ?metadata ?verbatimString ?word ?number ?string
    ?otherLiteral ?operator
  case preprocessorLine =>
    intro r hr
    simp [readPreprocessorLine?] at hr
  case metadata =>
    intro x hx
    rw [readMetadata?, metadataLength?] at hx
    split at hx <;> simp at hx
  case verbatimString =>
    intro x hx
    simp [readVerbatimString?, verbatimMark?] at hx
  case word =>
    intro x hx
    have hopens : l.opensWord '\uFEFF' = false := by
      have : Text.isAlphabetic '\uFEFF' = false := by decide +kernel
      simp [Language.opensWord, this]
    simp [readWord?, hopens] at hx
  case number =>
    intro r hr
    simp [readNumber?, opensNumber] at hr
  case string =>
    intro x hx
    have hq : '\uFEFF' ∉ l.quotes := fun hq => by
      rcases quotes_of_builtin hl hq with h | h <;> exact absurd h (by decide)
    simp [readString?, hq] at hx
  case otherLiteral =>
    intro x hx
    obtain ⟨d, hd, -⟩ := Option.map_eq_some_iff.mp hx
    have hquote := List.find?_some hd
    rcases (otherLiterals_of_builtin hl (List.mem_of_find?_eq_some hd)).1 with h | h <;> rw [h] at hquote <;>
      exact absurd hquote (by decide)
  case operator =>
    intro h
    rw [readOperator] at h
    split at h
    · split at h <;> cases h
      rfl
    · cases h
      rfl

lemma IsRead.exists_cons (hl : l ∈ Language.builtin) (h : IsRead l lineStart ⟨.token kind image reach, u⟩ z)
    (hk : n.collapses kind = true) : ∃ c v, u = c :: v ∧ c ≠ '\uFEFF' ∧ Text.isBlank c = false ∧ image = u ∧
      read l lineStart c (v ++ z) = .ok ⟨.token kind u reach, v.length⟩ := by
  obtain ⟨hoperator, hm, hd, -⟩ := Normalization.of_collapses hk
  obtain ⟨-, himage⟩ := (h.token hl rfl).2.2 hd
  rw [Kind.imageOf, if_neg hm] at himage
  dsimp only at himage
  subst himage
  obtain ⟨c, v, rfl, hr⟩ := h
  refine ⟨c, v, rfl, ?_, (read_eq_token hr).1, rfl, hr⟩
  rintro rfl
  exact hoperator (kind_of_read_mark hl hr)

lemma head_eq_of_cons_eq_concat {α : Type} {a b : α} {s : List α} (h : a :: s = s ++ [b]) : a = b := by
  induction s with
  | nil => simpa using h
  | cons e s ih =>
    rw [List.cons_append] at h
    obtain ⟨rfl, h⟩ := List.cons.inj h
    exact ih h

lemma isRead_of_alone (hl : l ∈ Language.builtin) (hk : n.collapses kind = true)
    (h : ∃ t, l.tokenize (String.ofList (new ++ [' '])) 0 {} = ⟨[t], none⟩ ∧ t.key = ⟨kind, some (String.ofList new)⟩) :
    ∃ reach, IsRead l true ⟨.token kind new reach, new⟩ [' '] := by
  obtain ⟨t, ht, hkey⟩ := h
  have hkeys := l.map_key_tokenize (String.ofList (new ++ [' '])) 0 {}
  rw [ht, List.map_singleton, hkey, funext fun key => show ({} : Normalization).applyKey key = some key by
    simp [Normalization.applyKey, Normalization.drops, Normalization.collapses], List.filterMap_some,
    String.toList_ofList] at hkeys
  obtain ⟨pre, ⟨role, text⟩, post, hsegments, -, hs, -⟩ := List.filterMap_eq_cons_iff.mp hkeys.symm
  obtain ⟨htext, hread, -⟩ := isCut_cut hl (dropByteOrderMark (new ++ [' ']))
  rw [hsegments] at htext hread
  generalize (cut l (dropByteOrderMark (new ++ [' ']))).unread = unread at htext hread
  obtain ⟨hpre, hseg, -⟩ := areRead_append.mp hread
  cases role with
  | blank => simp [Segment.key?] at hs
  | comment => simp [Segment.key?] at hs
  | token kind' image reach =>
    obtain ⟨rfl, himage⟩ := Key.mk.inj (Option.some.inj hs)
    obtain rfl : image = new := by simpa using congrArg (Option.map String.toList) himage
    obtain ⟨c, v, rfl, hmark, hblank, rfl, -⟩ := hseg.exists_cons hl hk
    have hdrop : dropByteOrderMark (c :: v ++ [' ']) = c :: v ++ [' '] :=
      dropByteOrderMark_append [] (by simpa using hmark)
    rw [hdrop, textOf_append, textOf_cons, List.append_assoc, List.append_assoc] at htext
    dsimp only at htext
    cases pre with
    | nil =>
      refine ⟨reach, ?_⟩
      rw [textOf_nil, List.nil_append, List.append_cancel_left_eq] at htext
      rwa [htext] at hseg
    | cons s pre =>
      -- The text would begin with its last character, a space.
      obtain ⟨⟨x, y, hx, -⟩, -⟩ := hpre
      rw [textOf_cons, hx] at htext
      have hlen := congrArg List.length htext
      simp only [List.length_append, List.length_cons, List.length_nil] at hlen
      have hy : y = [] := List.length_eq_zero_iff.mp (by omega)
      have hpre : textOf pre = [] := List.length_eq_zero_iff.mp (by omega)
      have hpost : textOf post ++ unread = [] := List.length_eq_zero_iff.mp (by rw [List.length_append]; omega)
      rw [hy, hpre, hpost] at htext
      have hspace : x = ' ' := head_eq_of_cons_eq_concat (s := c :: v) (by simpa using htext)
      rw [hspace] at htext
      rw [← (List.cons.inj htext).1] at hblank
      exact absurd hblank (by decide)

/-! ### Renaming -/

lemma IsRead.of_space (hl : l ∈ Language.builtin) (hk : n.collapses kind = true)
    (h : IsRead l true ⟨.token kind image reach, u⟩ [' ']) (hz : ∀ x, z.head? = some x → Text.isBlank x = true)
    (lineStart : Bool) : IsRead l lineStart ⟨.token kind image reach, u⟩ z := by
  obtain ⟨-, hm, hd, -⟩ := Normalization.of_collapses hk
  obtain ⟨c, v, rfl, -, -, rfl, hr⟩ := h.exists_cons hl hk
  refine ⟨c, v, rfl, read_of_lineStart ?_ hm hd lineStart⟩
  refine (settled_read hl (exchange_space hl hz (c :: v)) (fun _ hclosed => ?_) true).ok _ hr le_rfl
  by_cases hspaces : (v.drop (v.takeWhile l.continuesWord).length).dropWhile isSpace = []
  · rw [opensDirective_spaces l hspaces] at hclosed
    exact absurd hclosed (by simp [opensDirective_eq, isSpace])
  · rwa [opensDirective_append l hspaces] at hclosed ⊢

lemma applyKey_of_collapses (hk : n.collapses kind = true) (image : Option String) :
    n.applyKey ⟨kind, image⟩ = some ⟨kind, none⟩ := by
  rw [Normalization.applyKey, if_neg (by simp [(Normalization.of_collapses hk).2.2.2]), if_pos hk]

lemma sameKeys_renamed {image' : List Char} {reach' : ℕ} (hl : l ∈ Language.builtin) (hk : n.collapses kind = true)
    (hdone : AreRead l true done (old ++ behind))
    (hold : IsRead l (flagAfter true done) ⟨.token kind image reach, old⟩ behind)
    (hnew : IsRead l true ⟨.token kind image' reach', new⟩ [' '])
    (hbefore : ∀ x, (textOf done).getLast? = some x → Text.isBlank x = true)
    (hbehind : ∀ x, behind.head? = some x → Text.isBlank x = true)
    (hkeys : ∀ word ∈ l.directiveWords, (keysOf done).getLast? ≠ some ⟨.keyword, some word⟩) :
    (cut l (textOf done ++ (old ++ behind))).SameKeys n (cut l (textOf done ++ (new ++ behind))) := by
  have hkey : (keysOf [⟨.token kind image reach, old⟩]).filterMap n.applyKey =
      (keysOf [⟨.token kind image' reach', new⟩]).filterMap n.applyKey := by
    simp [keysOf, Segment.key?, applyKey_of_collapses hk]
  have hword := fun lineStart => hnew.of_space hl hk hbehind lineStart
  -- In front of the word there is nothing, or a blank behind which everything can be exchanged.
  cases hlast : (textOf done).getLast? with
  | none =>
    obtain rfl : done = [] := by
      cases done with
      | nil => rfl
      | cons s done =>
        obtain ⟨⟨c, u, hs, -⟩, -⟩ := hdone
        simp [hs] at hlast
    have h := sameKeys_of_areRead (areRead_singleton.mpr hold) (areRead_singleton.mpr (hword true)) rfl hkey
    simpa [cut, flagAfter] using h
  | some x =>
    have hx := hbefore x hlast
    obtain ⟨d, v, rfl, -, hd, -, hr⟩ := hold.exists_cons hl hk
    obtain ⟨done, rfl⟩ := exists_blank hl hdone hd (read_eq_token hr).2.1 hlast hx
    obtain ⟨hdone, hblank⟩ := areRead_append.mp hdone
    simp only [textOf_cons, textOf_nil, List.append_nil, List.singleton_append] at hdone
    rw [flagAfter_append] at hold
    rw [keysOf_append, keysOf_cons_of_not_isToken (by rfl)] at hkeys
    have hexchange := exchange_blank hl hx (textOf done) (d :: v ++ behind) (new ++ behind)
    have hkeep := keepExpressions_of_keys hl hx hdone (by simpa [keysOf] using hkeys) (new ++ behind)
    have hpart : (cutOnto l [] (flagAfter true done) (x :: (d :: v ++ behind))).SameKeys n
        (cutOnto l [] (flagAfter true done) (x :: (new ++ behind))) := by
      have hread : AreRead l (flagAfter true done) [⟨.blank, [x]⟩, ⟨.token kind image reach, d :: v⟩] behind :=
        ⟨(areRead_blank hx _ _).1, areRead_singleton.mpr hold⟩
      have hread' : AreRead l (flagAfter true done) [⟨.blank, [x]⟩, ⟨.token kind image' reach', new⟩] behind :=
        ⟨(areRead_blank hx _ _).1, areRead_singleton.mpr (hword _)⟩
      simpa using sameKeys_of_areRead hread hread' rfl hkey
    simpa [cut] using sameKeys_exchange hl hdone hexchange hkeep hpart

end Source

open Source

lemma IsRenaming.agrees {l : Language} {n : Normalization} {kind : Kind} {before old behind new : List Char}
    (hl : l ∈ Language.builtin) (h : IsRenaming l n kind before old behind new) (file : ℕ) :
    (l.tokenize (String.ofList (before ++ old ++ behind)) file n).Agrees
      (l.tokenize (String.ofList (before ++ new ++ behind)) file n) := by
  obtain ⟨⟨done, image, reach, following, hsegments, hdone, hkeys⟩, hk, hbefore, hbehind, halone⟩ := h
  obtain ⟨reach', hnew⟩ := isRead_of_alone hl hk halone
  refine Language.agrees_tokenize ?_ file file
  obtain ⟨htext, hread, -⟩ := isCut_cut hl (dropByteOrderMark (before ++ old ++ behind))
  rw [hsegments] at htext hread
  obtain ⟨hread, hold, -⟩ := areRead_append.mp hread
  have hmark : ∀ {word z b image reach}, IsRead l b ⟨.token kind image reach, word⟩ z →
      dropByteOrderMark (before ++ word ++ behind) = textOf done ++ (word ++ behind) := by
    intro word z b image reach hr
    obtain ⟨c, v, rfl, hc, -⟩ := hr.exists_cons hl hk
    rw [List.append_assoc, dropByteOrderMark_append before (by simpa using hc), hdone]
  rw [hmark hold, textOf_append, textOf_cons, List.append_assoc, List.append_assoc, List.append_cancel_left_eq,
    List.append_cancel_left_eq] at htext
  rw [String.toList_ofList, String.toList_ofList, hmark hold, hmark hnew]
  rw [hmark hold, htext] at hold
  rw [textOf_cons, List.append_assoc, hmark hold, htext] at hread
  exact sameKeys_renamed hl hk hread hold hnew (hdone ▸ hbefore) hbehind hkeys

end CodeClones
