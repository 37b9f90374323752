import Mathlib.Data.Bool.AllAny
import CodeClones.Proofs.Source.Escapes
import CodeClones.Proofs.Source.Images
import CodeClones.Proofs.Source.Segments

/-! The pieces that a directive is read in: gaps, which its image shows as single spaces, and what it shows as it
is. -/

namespace CodeClones.Source

inductive Piece
  | gap (text : List Char)
  | sign (c : Char)
  | quoted (quote : Char) (body : List Char)
deriving DecidableEq, Repr

namespace Piece

def text : Piece → List Char
  | gap s => s
  | sign c => [c]
  | quoted quote body => quote :: body

def isGap : Piece → Bool
  | gap _ => true
  | _ => false

def EndsEscaped : Piece → Prop
  | quoted _ body => EndsEscaping body.dropLast
  | _ => False

instance : DecidablePred EndsEscaped := fun p => by
  cases p <;> unfold EndsEscaped <;> infer_instance

def IsOfLine : Piece → List Char → Prop
  | gap s, behind => (∃ c, s = [c] ∧ Text.isBlank c = true) ∨
      ∃ t, s = '\\' :: t ∧ t ≠ [] ∧ continuationLength (t ++ behind) = t.length
  | sign c, behind => Text.isBlank c = false ∧ ¬ (c = '\\' ∧ 0 < continuationLength behind)
  | quoted .., _ => False

def IsOfStatement : Piece → List Char → Prop
  | gap s, _ => (∃ c, s = [c] ∧ Text.isBlank c = true) ∨ s = ['\\', '\n']
  | sign c, behind => Text.isBlank c = false ∧ isDirectiveQuote c = false ∧ ¬ (c = '\\' ∧ behind.head? = some '\n')
  | quoted quote body, behind =>
      isDirectiveQuote quote = true ∧ (quotedLength quote 0 0 (body ++ behind)).1 = body.length

end Piece

variable {l : Language} {lineStart spaced : Bool} {n reach k : ℕ} {c quote : Char}
  {s text rest behind image body : List Char} {d : Draft} {p : Piece} {ps qs gaps before : List Piece}

def piecesText (ps : List Piece) : List Char := ps.flatMap Piece.text

@[simp] lemma piecesText_nil : piecesText [] = [] := rfl

@[simp] lemma piecesText_cons (p : Piece) (ps : List Piece) : piecesText (p :: ps) = p.text ++ piecesText ps := rfl

@[simp] lemma piecesText_append (ps qs : List Piece) : piecesText (ps ++ qs) = piecesText ps ++ piecesText qs :=
  List.flatMap_append

@[simp] lemma piecesText_signs (s : List Char) : piecesText (s.map .sign) = s := by
  induction s with
  | nil => rfl
  | cons c s ih => rw [List.map_cons, piecesText_cons, ih, Piece.text, List.singleton_append]

def ArePieces (P : Piece → List Char → Prop) : List Piece → List Char → Prop
  | [], _ => True
  | p :: ps, behind => P p (piecesText ps ++ behind) ∧ ArePieces P ps behind

lemma arePieces_append {P : Piece → List Char → Prop} :
    ArePieces P (ps ++ qs) behind ↔ ArePieces P ps (piecesText qs ++ behind) ∧ ArePieces P qs behind := by
  induction ps with
  | nil => simp [ArePieces]
  | cons p ps ih => simp [ArePieces, ih, and_assoc]

/-- What the image of a directive shows of its pieces; `spaced` tells whether a gap stands in front of them. -/
def imageOf (spaced : Bool) : List Piece → List Char
  | [] => []
  | p :: ps =>
      if p.isGap then imageOf true ps
      else if spaced then ' ' :: (p.text ++ imageOf false ps) else p.text ++ imageOf false ps

/-! ### Drafts -/

namespace Draft

def read (d : Draft) (spaced : Bool) : Piece → Draft
  | .gap s => d.skip s.length
  | .sign c => d.keep spaced c
  | .quoted quote body =>
      (d.keep spaced quote).keepText body (if EndsEscaping body.dropLast then body.length - 1 else body.length)

def readAll (d : Draft) (spaced : Bool) : List Piece → Draft
  | [] => d
  | p :: ps => (d.read spaced p).readAll p.isGap ps

lemma more_read (d : Draft) (spaced : Bool) (p : Piece) : (d.read spaced p).more = d.more + p.text.length := by
  cases p <;> simp [read, skip, keep, keepText, Piece.text, Nat.add_assoc, Nat.add_comm 1]

lemma more_readAll (d : Draft) (spaced : Bool) (ps : List Piece) :
    (d.readAll spaced ps).more = d.more + (piecesText ps).length := by
  induction ps generalizing d spaced with
  | nil => rfl
  | cons p ps ih => rw [readAll, ih, more_read, piecesText_cons, List.length_append, Nat.add_assoc]

lemma reversed_readAll (d : Draft) (spaced : Bool) (ps : List Piece) :
    (d.readAll spaced ps).reversed = (imageOf spaced ps).reverse ++ d.reversed := by
  induction ps generalizing d spaced with
  | nil => rfl
  | cons p ps ih =>
    rw [readAll, ih]
    cases p <;> cases spaced <;> simp [imageOf, read, skip, keep, keepText, Piece.isGap, Piece.text]

lemma reach_read (d : Draft) (spaced : Bool) (hp : p.isGap = false) : (d.read spaced p).reach =
    d.more + 1 + (if p.EndsEscaped then p.text.length - 1 else p.text.length) := by
  cases p with
  | gap s => simp [Piece.isGap] at hp
  | sign c => simp [read, keep, Piece.EndsEscaped, Piece.text]
  | quoted quote body =>
    by_cases he : EndsEscaping body.dropLast
    · have hne : body ≠ [] := by
        rintro rfl
        exact not_endsEscaping_nil he
      have := List.length_pos_iff.mpr hne
      simp only [read, keep, keepText, Piece.EndsEscaped, he, if_true, Piece.text, List.length_cons]
      omega
    · simp only [read, keep, keepText, Piece.EndsEscaped, he, if_false, Piece.text, List.length_cons]
      omega

lemma reach_readAll_gaps (d : Draft) (spaced : Bool) (h : ∀ g ∈ gaps, g.isGap = true) :
    (d.readAll spaced gaps).reach = d.reach := by
  induction gaps generalizing d spaced with
  | nil => rfl
  | cons g gaps ih =>
    rw [readAll, ih _ _ fun g hg => h g (List.mem_cons_of_mem _ hg)]
    have hg := h g List.mem_cons_self
    cases g with
    | gap s => rfl
    | sign c => simp [Piece.isGap] at hg
    | quoted quote body => simp [Piece.isGap] at hg

lemma reach_readAll (d : Draft) (spaced : Bool) (hp : p.isGap = false) (hgaps : ∀ g ∈ gaps, g.isGap = true) :
    (d.readAll spaced (before ++ p :: gaps)).reach = d.more + 1 + (piecesText before).length +
      (if p.EndsEscaped then p.text.length - 1 else p.text.length) := by
  induction before generalizing d spaced with
  | nil => rw [List.nil_append, readAll, reach_readAll_gaps _ _ hgaps, reach_read d spaced hp]; rfl
  | cons q before ih =>
    rw [List.cons_append, readAll, ih, more_read, piecesText_cons, List.length_append]
    omega

lemma readAll_signs (d : Draft) (s : List Char) (h : d.reach = d.more + 1) (ps : List Piece) :
    d.readAll false (s.map .sign ++ ps) =
      (⟨d.more + s.length, s.reverse ++ d.reversed, d.more + s.length + 1⟩ : Draft).readAll false ps := by
  induction s generalizing d with
  | nil =>
    obtain ⟨more, reversed, reach⟩ := d
    obtain rfl : reach = more + 1 := h
    rfl
  | cons c s ih =>
    rw [List.map_cons, List.cons_append, readAll]
    refine (ih (d.keep false c) rfl).trans ?_
    simp [keep, Nat.add_assoc, Nat.add_comm 1]

end Draft

/-! ### Readings -/

lemma quotedLength_eq (quote : Char) (n reach : ℕ) (text : List Char) : ∃ body behind, text = body ++ behind ∧
    quotedLength quote n reach text = (n + body.length, if body = [] then reach
      else if EndsEscaping body.dropLast then n + body.length - 1 else n + body.length) := by
  fun_induction quotedLength quote n reach text with
  | case1 => exact ⟨[], [], rfl, rfl⟩
  | case2 n reach rest => exact ⟨[], '\n' :: rest, rfl, rfl⟩
  | case3 => exact ⟨['\\'], [], rfl, rfl⟩
  | case4 n reach rest => exact ⟨['\\'], '\n' :: rest, rfl, rfl⟩
  | case5 n reach e rest h₁ h₂ ih =>
    obtain ⟨body, behind, rfl, hq⟩ := ih
    refine ⟨'\\' :: e :: body, behind, rfl, ?_⟩
    rw [hq]
    cases body with
    | nil =>
      have hescape : EndsEscaping ['\\'] := by decide
      simp [hescape]
    | cons x body =>
      rw [if_neg (List.cons_ne_nil _ _), if_neg (List.cons_ne_nil _ _), List.dropLast_cons_cons,
        List.dropLast_cons_cons]
      simp only [endsEscaping_escape, List.length_cons, Prod.mk.injEq]
      split <;> omega
  | case6 n reach rest h₁ h₂ => exact ⟨[quote], rest, rfl, by simp⟩
  | case7 n reach c rest h₁ h₂ h₃ ih =>
    obtain ⟨body, behind, rfl, hq⟩ := ih
    refine ⟨c :: body, behind, rfl, ?_⟩
    rw [hq]
    cases body with
    | nil => simp
    | cons x body =>
      rw [if_neg (List.cons_ne_nil _ _), if_neg (List.cons_ne_nil _ _), List.dropLast_cons_cons]
      simp only [endsEscaping_cons h₂, List.length_cons, Prod.mk.injEq]
      split <;> omega

lemma exists_pieces_statement (l : Language) (depth : ℕ) (spaced : Bool) (d : Draft) (text : List Char) :
    ∃ ps behind, text = piecesText ps ++ behind ∧ ArePieces Piece.IsOfStatement ps behind ∧
      statement l depth spaced d text = d.readAll spaced ps := by
  fun_induction statement l depth spaced d text with
  | case1 => exact ⟨[], [], rfl, trivial, rfl⟩
  | case2 depth spaced d c rest => exact ⟨[], c :: rest, rfl, trivial, rfl⟩
  | case3 depth spaced d c rest h h' ih =>
    obtain ⟨rest, rfl⟩ := List.head?_eq_some_iff.mp h'.2
    obtain ⟨ps, behind, htext, hps, hd⟩ := ih
    refine ⟨.gap ['\\', '\n'] :: ps, behind, ?_, ⟨.inr rfl, hps⟩, hd⟩
    rw [h'.1, piecesText_cons, List.append_assoc, ← htext]
    rfl
  | case4 depth spaced d c rest h h' h'' ih =>
    obtain ⟨ps, behind, rfl, hps, hd⟩ := ih
    exact ⟨.gap [c] :: ps, behind, rfl, ⟨.inl ⟨c, rfl, h''⟩, hps⟩, hd⟩
  | case5 depth spaced d c rest h₁ h₂ h₃ h₄ =>
    refine ⟨[.sign c], rest, rfl, ⟨⟨by simpa using h₃, ?_, h₂⟩, trivial⟩, rfl⟩
    rw [h₄.1]
    decide
  | case6 depth spaced d c rest h₁ h₂ h₃ h₄ h₅ m reach hm ih =>
    obtain ⟨body, following, rfl, hq⟩ := quotedLength_eq c 0 0 rest
    obtain ⟨rfl, rfl⟩ := Prod.mk.inj (hm.symm.trans hq)
    rw [Nat.zero_add, List.drop_left, List.take_left] at ih
    obtain ⟨ps, behind, rfl, hps, hd⟩ := ih
    refine ⟨.quoted c body :: ps, behind, by simp [Piece.text], ⟨⟨h₅, by rw [hq, Nat.zero_add]⟩, hps⟩, ?_⟩
    rw [Nat.zero_add, List.drop_left, List.take_left, hd, Draft.readAll, Draft.read]
    congr 2
    cases body with
    | nil => simp
    | cons x body => rw [if_neg (List.cons_ne_nil _ _)]
  | case7 depth spaced d c rest h₁ h₂ h₃ h₄ h₅ ih =>
    obtain ⟨ps, behind, rfl, hps, hd⟩ := ih
    refine ⟨.sign c :: ps, behind, rfl, ⟨⟨by simpa using h₃, by simpa using h₅, h₂⟩, hps⟩, hd⟩

lemma exists_pieces_preprocessorLine (spaced : Bool) (d : Draft) (text : List Char) :
    ∃ ps behind, text = piecesText ps ++ behind ∧ ArePieces Piece.IsOfLine ps behind ∧
      preprocessorLine spaced d text = d.readAll spaced ps := by
  fun_induction preprocessorLine spaced d text with
  | case1 => exact ⟨[], [], rfl, trivial, rfl⟩
  | case2 spaced d c rest => exact ⟨[], c :: rest, rfl, trivial, rfl⟩
  | case3 spaced d c rest h h' ih =>
    obtain ⟨rfl, hpos⟩ := h'
    obtain ⟨ps, behind, htext, hps, hd⟩ := ih
    have hle := continuationLength_le rest
    have hrest : rest = rest.take (continuationLength rest) ++ (piecesText ps ++ behind) := by
      rw [← htext, List.take_append_drop]
    have hlength : (rest.take (continuationLength rest)).length = continuationLength rest := by
      rw [List.length_take, Nat.min_eq_left hle]
    refine ⟨.gap ('\\' :: rest.take (continuationLength rest)) :: ps, behind, ?_,
      ⟨.inr ⟨_, rfl, ?_, ?_⟩, hps⟩, ?_⟩
    · rw [piecesText_cons, List.append_assoc, Piece.text, List.cons_append, ← hrest]
    · exact List.ne_nil_of_length_pos (hpos.trans_eq hlength.symm)
    · rw [← hrest, hlength]
    · rw [Draft.readAll, Draft.read, List.length_cons, hlength, Nat.add_comm _ 1, hd]
      rfl
  | case4 spaced d c rest h h' h'' ih =>
    obtain ⟨ps, behind, rfl, hps, hd⟩ := ih
    exact ⟨.gap [c] :: ps, behind, rfl, ⟨.inl ⟨c, rfl, h''⟩, hps⟩, hd⟩
  | case5 spaced d c rest h h' h'' ih =>
    obtain ⟨ps, behind, rfl, hps, hd⟩ := ih
    exact ⟨.sign c :: ps, behind, rfl, ⟨⟨by simpa using h'', h'⟩, hps⟩, hd⟩

lemma continuesWord_ne (h : l.continuesWord c = true) : c ∉ ['"', '\'', '\x60', '\\', '#'] := by
  have hmarks : ∀ x ∈ ['"', '\'', '\x60', '\\', '#'], Text.isAlphabetic x = false ∧ Text.isNumeric x = false ∧
      x ≠ '_' ∧ x ≠ '$' := List.all_iff_forall_prop.mp (by decide)
  intro hc
  obtain ⟨ha, hn, hu, hd⟩ := hmarks c hc
  simp [Language.continuesWord, ha, hn, hu, hd] at h

lemma isOfStatement_word (h : l.continuesWord c = true) (behind : List Char) : (Piece.sign c).IsOfStatement behind := by
  have hne := continuesWord_ne h
  simp only [List.mem_cons, List.not_mem_nil, or_false, not_or] at hne
  exact ⟨isBlank_of_continuesWord h, by simp [isDirectiveQuote, hne], fun hb => hne.2.2.2.1 hb.1⟩

lemma arePieces_signs {P : Piece → List Char → Prop} (h : ∀ x ∈ s, ∀ behind, P (.sign x) behind)
    (behind : List Char) : ArePieces P (s.map .sign) behind := by
  induction s with
  | nil => trivial
  | cons c s ih =>
    exact ⟨h c List.mem_cons_self _, ih fun x hx => h x (List.mem_cons_of_mem c hx)⟩

def Piece.IsOf (c : Char) : Piece → List Char → Prop := if c = '#' then IsOfLine else IsOfStatement

lemma exists_pieces_of_readToken (hl : l ∈ Language.builtin)
    (h : readToken l lineStart c rest = .ok ⟨.token .directive image reach, k⟩) :
    ∃ ps behind, rest = piecesText ps ++ behind ∧ ArePieces (Piece.IsOf c) (.sign c :: ps) behind ∧
      (Draft.readAll (.ofText c []) false ps).reading = ⟨.token .directive image reach, k⟩ := by
  rcases readToken_eq_directive hl h with ⟨-, rfl, hd⟩ | ⟨hc, tail, behind, rfl, htail, hd⟩
  · obtain ⟨ps, behind, rfl, hps, hread⟩ := exists_pieces_preprocessorLine false (.ofText '#' []) rest
    exact ⟨ps, behind, rfl, ⟨⟨by decide, by simp⟩, hps⟩, hread ▸ hd⟩
  · have hword := Language.continuesWord_of_opensWord l hc
    have hform : Piece.IsOf c = Piece.IsOfStatement := if_neg fun h => continuesWord_ne hword (by simp [h])
    obtain ⟨ps, behind, rfl, hps, hread⟩ := exists_pieces_statement l 0 false (.ofText c tail) behind
    refine ⟨tail.map .sign ++ ps, behind, by simp, ?_, ?_⟩
    · rw [hform]
      refine ⟨isOfStatement_word hword _, arePieces_append.mpr ⟨?_, hps⟩⟩
      exact arePieces_signs (fun x hx => isOfStatement_word (htail x hx)) _
    · rw [Draft.readAll_signs _ _ rfl]
      rw [hread] at hd
      simpa [Draft.ofText] using hd

lemma IsRead.exists_pieces {seg : Segment} (hl : l ∈ Language.builtin) (h : IsRead l lineStart seg behind)
    (hr : seg.role = .token .directive image reach) : ∃ c ps, seg.text = piecesText (.sign c :: ps) ∧
      ArePieces (Piece.IsOf c) (.sign c :: ps) behind ∧ image = imageOf false (.sign c :: ps) ∧
      reach = (Draft.readAll (.ofText c []) false ps).reach := by
  obtain ⟨c, u, hu, hread⟩ := h
  rw [hr] at hread
  obtain ⟨-, -, -, hread⟩ := read_eq_token hread
  obtain ⟨ps, following, hrest, hps, hreading⟩ := exists_pieces_of_readToken hl hread
  simp only [Draft.reading, Reading.mk.injEq, Role.token.injEq, Draft.reversed_readAll, Draft.more_readAll] at hreading
  obtain ⟨⟨-, himage, hreach⟩, hmore⟩ := hreading
  obtain ⟨rfl, rfl⟩ := List.append_inj hrest (hmore.symm.trans (Nat.zero_add _))
  refine ⟨c, ps, hu, hps, ?_, hreach.symm⟩
  rw [← himage]
  simp [imageOf, Draft.ofText, Piece.isGap, Piece.text]

end CodeClones.Source
