import CodeClones.Proofs.Source.Pieces
import CodeClones.Proofs.Source.Places

/-! A directive stands where its image does: from the first to the last of the pieces that show. -/

namespace CodeClones

open Source

variable {l : Language} {lineStart spaced : Bool} {text behind : List Char} {i j file reach : ℕ} {c : Char}
  {image : List Char} {p : Piece} {ps before gaps : List Piece} {seg : Segment} {t : Token}

namespace Source

lemma text_ne_nil (hp : p.isGap = false) : p.text ≠ [] := by
  cases p <;> simp [Piece.isGap, Piece.text] at *

lemma imageOf_gaps (spaced : Bool) (h : ∀ g ∈ gaps, g.isGap = true) : imageOf spaced gaps = [] := by
  induction gaps generalizing spaced with
  | nil => rfl
  | cons g gaps ih =>
    rw [imageOf, if_pos (h g List.mem_cons_self)]
    exact ih true fun g hg => h g (List.mem_cons_of_mem _ hg)

lemma getLast?_imageOf (hp : p.isGap = false) (hgaps : ∀ g ∈ gaps, g.isGap = true) (before : List Piece)
    (spaced : Bool) : (imageOf spaced (before ++ p :: gaps)).getLast? = p.text.getLast? := by
  induction before generalizing spaced with
  | nil =>
    rw [List.nil_append, imageOf, if_neg (by simp [hp]), imageOf_gaps _ hgaps, List.append_nil]
    split
    · exact List.getLast?_append_of_ne_nil [' '] (text_ne_nil hp)
    · rfl
  | cons q before ih =>
    have hne : imageOf false (before ++ p :: gaps) ≠ [] := by
      intro he
      have hlast := ih false
      rw [he, List.getLast?_nil, eq_comm, List.getLast?_eq_none_iff] at hlast
      exact text_ne_nil hp hlast
    rw [List.cons_append, imageOf]
    split
    · exact ih true
    · split
      · rw [← List.cons_append, List.getLast?_append_of_ne_nil _ hne, ih]
      · rw [List.getLast?_append_of_ne_nil _ hne, ih]

lemma exists_last_shown (ps : List Piece) (h : ∃ p ∈ ps, p.isGap = false) :
    ∃ before p gaps, ps = before ++ p :: gaps ∧ p.isGap = false ∧ ∀ g ∈ gaps, g.isGap = true := by
  induction ps with
  | nil => simp at h
  | cons q ps ih =>
    by_cases hps : ∃ p ∈ ps, p.isGap = false
    · obtain ⟨before, p, gaps, rfl, hp, hgaps⟩ := ih hps
      exact ⟨q :: before, p, gaps, rfl, hp, hgaps⟩
    · push Not at hps
      obtain ⟨p, hmem, hp⟩ := h
      rcases List.mem_cons.mp hmem with rfl | hmem
      · exact ⟨[], p, ps, rfl, hp, fun g hg => by simpa using hps g hg⟩
      · exact absurd hp (hps p hmem)

lemma reach_readAll_first (h : Piece.sign c :: ps = before ++ p :: gaps) (hp : p.isGap = false)
    (hgaps : ∀ g ∈ gaps, g.isGap = true) : (Draft.readAll (.ofText c []) false ps).reach =
      (piecesText before).length + (if p.EndsEscaped then p.text.length - 1 else p.text.length) := by
  cases before with
  | nil =>
    obtain ⟨rfl, rfl⟩ := List.cons.inj h
    exact Draft.reach_readAll_gaps _ _ hgaps
  | cons q before =>
    obtain ⟨rfl, rfl⟩ := List.cons.inj h
    refine (Draft.reach_readAll _ _ hp hgaps).trans ?_
    simp only [Draft.ofText, piecesText_cons, Piece.text, List.length_append, List.length_nil, List.length_singleton]

def IsReadAt (l : Language) (text : List Char) (i : ℕ) (part : List Char) : Prop :=
  ∃ segments seg following, (cut l text).segments = segments ++ seg :: following ∧ (textOf segments).length = i ∧
    seg.text = part

end Source

/-- The token stands for the pieces that begin at the character number `i` of a text, with the piece that shows last
ending at the character number `j`. -/
structure Token.Shows (t : Token) (text : List Char) (i j : ℕ) (before : List Piece) (p : Piece) (gaps : List Piece) :
    Prop where
  pieces : ∃ c behind, text[i]? = some c ∧ text.drop i = piecesText (before ++ p :: gaps) ++ behind ∧
    ArePieces (Piece.IsOf c) (before ++ p :: gaps) behind
  shown : p.isGap = false
  hidden : ∀ g ∈ gaps, g.isGap = true
  image : t.image = some (String.ofList (imageOf false (before ++ p :: gaps)))
  head : (imageOf false (before ++ p :: gaps)).head? = text[i]?
  last : (imageOf false (before ++ p :: gaps)).getLast? = text[j]?
  place : j + 1 = i + (piecesText (before ++ [p])).length

lemma Source.IsRead.shows (hl : l ∈ Language.builtin) (hlen : text.length < maxCoordinate) {pre : List Char}
    (htext : text = pre ++ (seg.text ++ behind)) (h : IsRead l lineStart seg behind)
    (ht : seg.token? file (Position.start.afterText pre) = some t) (hk : t.kind = .directive) :
    ∃ j before p gaps, t.Shows text pre.length j before p gaps ∧ seg.text = piecesText (before ++ p :: gaps) ∧
      t.first = .ofIndex text pre.length ∧ t.last = .ofIndex text (if p.EndsEscaped then j - 1 else j) := by
  cases hr : seg.role with
  | blank => simp [Segment.token?, hr] at ht
  | comment => simp [Segment.token?, hr] at ht
  | token kind image reach =>
    obtain ⟨hpos, hle, -⟩ := h.token hl hr
    obtain ⟨hkey, hfirst, hlast⟩ := places_of_token? hlen htext hr hle ht
    obtain rfl : kind = .directive := (congrArg Key.kind hkey).symm.trans hk
    obtain ⟨c, ps, hseg, hps, rfl, hreach⟩ := h.exists_pieces hl hr
    obtain ⟨before, p, gaps, heq, hp, hgaps⟩ := exists_last_shown (.sign c :: ps)
      ⟨_, List.mem_cons_self, rfl⟩
    have hsome : text[pre.length]? = some c := by
      rw [htext, hseg]
      simp [Piece.text]
    rw [heq] at hseg
    have hdrop : text.drop pre.length = piecesText (before ++ p :: gaps) ++ behind := by
      rw [htext, List.drop_left, hseg]
    have hdark := List.length_pos_iff.mpr (text_ne_nil hp)
    rw [reach_readAll_first heq hp hgaps] at hreach
    refine ⟨pre.length + (piecesText before).length + p.text.length - 1, before, p, gaps,
      ⟨⟨c, behind, hsome, hdrop, heq ▸ hps⟩, hp, hgaps, ?_, ?_, ?_, ?_⟩, hseg, hfirst, ?_⟩
    · rw [← heq]
      exact congrArg Key.image hkey
    · rw [hsome, ← heq]
      rfl
    · rw [getLast?_imageOf hp hgaps, List.getLast?_eq_getElem?]
      have hplace : pre.length + (piecesText before).length + p.text.length - 1 =
          pre.length + ((piecesText before).length + (p.text.length - 1)) := by omega
      rw [hplace, ← List.getElem?_drop, hdrop, piecesText_append, piecesText_cons, List.append_assoc,
        List.getElem?_append_right (Nat.le_add_right _ _), Nat.add_sub_cancel_left, List.append_assoc,
        List.getElem?_append_left (by omega)]
    · rw [piecesText_append, List.length_append, piecesText_cons, piecesText_nil, List.append_nil]
      omega
    · rw [hlast]
      congr 1
      split at hreach <;> simp only [*, if_true, if_false] <;> omega

/-- A directive begins where its image does, and it ends where the last piece of the image does: one character before
that end if a backslash takes in the last character. -/
theorem Language.directive_shows (hl : l ∈ builtin) {source : String}
    (hlen : (dropByteOrderMark source.toList).length < maxCoordinate)
    (ht : t ∈ (l.tokenize source file {}).tokens) (hk : t.kind = .directive) :
    ∃ i j before p gaps, t.Shows (dropByteOrderMark source.toList) i j before p gaps ∧
      IsReadAt l (dropByteOrderMark source.toList) i (piecesText (before ++ p :: gaps)) ∧
      t.first = .ofIndex (dropByteOrderMark source.toList) i ∧
      t.last = .ofIndex (dropByteOrderMark source.toList) (if p.EndsEscaped then j - 1 else j) := by
  rw [tokenize_default] at ht
  have hcut := isCut_cut hl (dropByteOrderMark source.toList)
  obtain ⟨segments, seg, following, hsegments, hseg⟩ := exists_segment_of_mem (p := .start) ht
  have hread := hcut.read
  have htext := hcut.text_eq
  rw [hsegments] at hread htext
  obtain ⟨-, hread, -⟩ := areRead_append.mp hread
  obtain ⟨j, before, p, gaps, hshows, hpieces, hfirst, hlast⟩ :=
    hread.shows hl hlen (by simpa using htext.symm) hseg hk
  exact ⟨_, j, before, p, gaps, hshows, ⟨segments, seg, following, hsegments, rfl, hpieces⟩, hfirst, hlast⟩

set_option maxRecDepth 20000 in
theorem Language.directive_shows_go :
    (dropByteOrderMark "import\t\"a b\" ".toList).length < maxCoordinate ∧
    (go.tokenize "import\t\"a b\" " 0 {}).tokens = [⟨.directive, some "import \"a b\"", 0, ⟨1, 1⟩, ⟨1, 12⟩⟩] ∧
    ∃ i j before p gaps,
      (⟨.directive, some "import \"a b\"", 0, ⟨1, 1⟩, ⟨1, 12⟩⟩ : Token).Shows
        (dropByteOrderMark "import\t\"a b\" ".toList) i j before p gaps ∧
      IsReadAt go (dropByteOrderMark "import\t\"a b\" ".toList) i (piecesText (before ++ p :: gaps)) ∧
      (⟨1, 1⟩ : Position) = .ofIndex (dropByteOrderMark "import\t\"a b\" ".toList) i ∧
      (⟨1, 12⟩ : Position) =
        .ofIndex (dropByteOrderMark "import\t\"a b\" ".toList) (if p.EndsEscaped then j - 1 else j) := by
  have hlen : (dropByteOrderMark "import\t\"a b\" ".toList).length < maxCoordinate := by decide
  have htokens : (go.tokenize "import\t\"a b\" " 0 {}).tokens =
      [⟨.directive, some "import \"a b\"", 0, ⟨1, 1⟩, ⟨1, 12⟩⟩] := by
    cbv
  exact ⟨hlen, htokens, directive_shows (by decide +kernel) hlen (htokens ▸ List.mem_cons_self) rfl⟩

set_option maxRecDepth 20000 in
theorem Language.directive_ends_early : ¬ ∀ l ∈ builtin, ∀ source : String,
    (dropByteOrderMark source.toList).length < maxCoordinate →
    ∀ t ∈ (l.tokenize source 0 {}).tokens, t.kind = .directive →
      ∃ image j, t.image = some image ∧ image.toList.getLast? = (dropByteOrderMark source.toList)[j]? ∧
        t.last = .ofIndex (dropByteOrderMark source.toList) j := by
  intro h
  have htokens : (go.tokenize "import \"\\a" 0 {}).tokens =
      [⟨.directive, some "import \"\\a", 0, ⟨1, 1⟩, ⟨1, 9⟩⟩] := by
    cbv
  obtain ⟨image, j, himage, hchar, hlast⟩ := h go (by decide +kernel) "import \"\\a" (by decide) _
    (htokens ▸ List.mem_cons_self) rfl
  obtain rfl := Option.some.inj himage
  have hplaces : ∀ j < 10, "import \"\\a".toList.getLast? = (dropByteOrderMark "import \"\\a".toList)[j]? →
      (⟨1, 9⟩ : Position) ≠ .ofIndex (dropByteOrderMark "import \"\\a".toList) j := by
    decide
  have hj : j < 10 := by
    by_contra hge
    have hnone : (dropByteOrderMark "import \"\\a".toList)[j]? = none := List.getElem?_eq_none (Nat.not_lt.mp hge)
    rw [hnone] at hchar
    exact absurd hchar (by decide)
  exact hplaces j hj hchar hlast

end CodeClones
