import Mathlib
import CodeClones.Proofs.Source.Places
import CodeClones.Proofs.Source.Stripping

/-! Directives and metadata with the same image have the same tokens in them, as far as their tokens can be told from
their text. -/

namespace CodeClones

open Source

variable {l : Language} {lineStart tracked spaced : Bool} {c : Char} {r text text' behind behind' image : List Char}
  {ss ss' : List Segment} {ps : List Piece} {key : Key} {i : ℕ} {seg : Segment}

namespace Source

/-! ### Images -/

def Piece.IsStripped (tracked : Bool) : Piece → List Char → Prop
  | gap s, z => ∀ r, Strips tracked (s ++ z) r → Strips tracked z r
  | sign c, z => IsOrdinary tracked c ∧ ¬ (c = '\\' ∧ OpensLineEnd z)
  | quoted quote body, z =>
      IsTracked tracked quote ∧ ∀ body' t, IsString quote body' → body ++ z = body' ++ t → body' = body

lemma not_opensLineEnd_imageOf (h : ArePieces (Piece.IsStripped tracked) ps []) (spaced : Bool) :
    ¬ OpensLineEnd (imageOf spaced ps) := by
  induction ps generalizing spaced with
  | nil => rintro (⟨t, ht⟩ | ⟨t, ht⟩) <;> simp [imageOf] at ht
  | cons p ps ih =>
    have hspace : ∀ s, ¬ OpensLineEnd (' ' :: s) := by
      rintro s (⟨t, ht⟩ | ⟨t, ht⟩) <;> simp at ht
    cases p with
    | gap s => exact ih h.2 true
    | sign c =>
      cases spaced with
      | true => exact hspace _
      | false => exact not_opensLineEnd h.1.1.1 _
    | quoted quote body =>
      cases spaced with
      | true => exact hspace _
      | false => exact not_opensLineEnd h.1.1.isBlank.1 _

lemma strips_imageOf (h : ArePieces (Piece.IsStripped tracked) ps []) (hr : Strips tracked (piecesText ps) r)
    (spaced : Bool) : Strips tracked (imageOf spaced ps) r := by
  -- Nothing is left of a gap, nor of the space that the image shows for it.
  have hspaced : ∀ {spaced : Bool} {s r}, Strips tracked s r →
      Strips tracked (if spaced then ' ' :: s else s) r := by
    intro spaced s r hs
    cases spaced with
    | true => exact hs.blank (by decide)
    | false => exact hs
  induction ps generalizing spaced r with
  | nil => exact hr
  | cons p ps ih =>
    rw [ArePieces, List.append_nil] at h
    obtain ⟨hp, h⟩ := h
    cases p with
    | gap s => exact ih h (hp r hr) true
    | sign c =>
      obtain ⟨r, rfl, hrest⟩ := (strips_plain hp.1 hp.2).mp hr
      have hends : ¬ (c = '\\' ∧ OpensLineEnd (imageOf false ps)) := fun hc =>
        not_opensLineEnd_imageOf h false hc.2
      exact hspaced ((ih h hrest false).plain hp.1 hends)
    | quoted quote body =>
      obtain ⟨ht, hbody⟩ := hp
      obtain ⟨body', t, r, he, hstring, rfl, hrest⟩ := (strips_quote ht).mp hr
      obtain rfl := hbody body' t hstring he
      obtain rfl : piecesText ps = t := List.append_cancel_left he
      exact hspaced ((ih h hrest false).quoted ht hstring)

lemma isStripped_blank (hc : Text.isBlank c = true) (z : List Char) : (Piece.gap [c]).IsStripped tracked z :=
  fun _ hr => (strips_blank hc).mp hr

lemma isStripped_lineFeed (z : List Char) : (Piece.gap ['\\', '\n']).IsStripped tracked z := fun r hr => by
  have hends : OpensLineEnd ('\n' :: z) := .inl ⟨z, rfl⟩
  exact (strips_blank (by decide)).mp ((strips_continuation hends).mp hr)

lemma isStripped_return (z : List Char) : (Piece.gap ['\\', '\r', '\n']).IsStripped tracked z := fun r hr => by
  have hends : OpensLineEnd ('\r' :: '\n' :: z) := .inr ⟨z, rfl⟩
  exact (strips_blank (by decide)).mp ((strips_blank (by decide)).mp ((strips_continuation hends).mp hr))

lemma OpensLineEnd.continuationLength_pos (h : OpensLineEnd text) (behind : List Char) :
    0 < continuationLength (text ++ behind) := by
  rcases h with ⟨t, rfl⟩ | ⟨t, rfl⟩
  · exact Nat.one_pos
  · exact Nat.lt_add_right _ Nat.one_pos

lemma isStripped_continuation {t z : List Char} (hne : t ≠ [])
    (ht : continuationLength (t ++ (z ++ behind)) = t.length) (hbroken : ¬ IsBroken ('\\' :: (t ++ z)) 0) :
    (Piece.gap ('\\' :: t)).IsStripped tracked z := by
  obtain ⟨x, t, rfl⟩ := List.exists_cons_of_ne_nil hne
  rw [List.cons_append, continuationLength.eq_def] at ht
  split at ht
  · next u hu =>
    obtain ⟨rfl, rfl⟩ := List.cons.inj hu
    obtain rfl : t = [] := by simpa using ht.symm
    exact isStripped_lineFeed z
  · next u hu =>
    obtain ⟨rfl, rfl⟩ := List.cons.inj hu
    cases t with
    | nil =>
      refine absurd ⟨0, ⟨z, rfl⟩, ?_, .inl rfl⟩ hbroken
      have hz : z ++ behind = [] := by
        apply List.eq_nil_of_length_eq_zero
        simp only [List.nil_append, List.length_take, List.length_cons, List.length_nil] at ht
        omega
      simp [(List.append_eq_nil_iff.mp hz).1]
    | cons y t =>
      obtain rfl : t = [] := by
        apply List.eq_nil_of_length_eq_zero
        simp only [List.cons_append, List.length_take, List.length_cons] at ht
        omega
      by_cases hy : y = '\n'
      · rw [hy]
        exact isStripped_return z
      · exact absurd ⟨0, ⟨y :: z, rfl⟩, by simpa using hy, .inl rfl⟩ hbroken
  · simp at ht

lemma isStripped_line (h : ArePieces Piece.IsOfLine ps behind) (hbroken : ∀ i, ¬ IsBroken (piecesText ps) i) :
    ArePieces (Piece.IsStripped false) ps [] := by
  induction ps with
  | nil => trivial
  | cons p ps ih =>
    obtain ⟨hp, h⟩ := h
    refine ⟨?_, ih h fun i hi => hbroken _ (hi.append p.text)⟩
    rw [List.append_nil]
    cases p with
    | gap s =>
      rcases hp with ⟨c, rfl, hc⟩ | ⟨t, rfl, hne, ht⟩
      · exact isStripped_blank hc _
      · exact isStripped_continuation hne ht (hbroken 0)
    | sign c =>
      refine ⟨⟨hp.1, fun ht => Bool.false_ne_true ht.1⟩, fun hc => hp.2 ⟨hc.1, ?_⟩⟩
      exact hc.2.continuationLength_pos behind
    | quoted quote body => exact absurd hp id

lemma isStripped_statement (h : ArePieces Piece.IsOfStatement ps behind)
    (hreturn : ∀ i, ¬ ['\\', '\r', '\n'] <+: (piecesText ps).drop i) : ArePieces (Piece.IsStripped true) ps [] := by
  induction ps with
  | nil => trivial
  | cons p ps ih =>
    obtain ⟨hp, h⟩ := h
    have hbehind : ∀ i, ¬ ['\\', '\r', '\n'] <+: (piecesText ps).drop i := fun i hi =>
      hreturn (p.text.length + i) (by rwa [piecesText_cons, List.drop_length_add_append])
    refine ⟨?_, ih h hbehind⟩
    rw [List.append_nil]
    cases p with
    | gap s =>
      rcases hp with ⟨c, rfl, hc⟩ | rfl
      · exact isStripped_blank hc _
      · exact isStripped_lineFeed _
    | sign c =>
      obtain ⟨hblank, hquote, hline⟩ := hp
      refine ⟨⟨hblank, fun ht => absurd ht.2 (by simp [hquote])⟩, ?_⟩
      rintro ⟨rfl, ⟨t, ht⟩ | ⟨t, ht⟩⟩
      · exact hline ⟨rfl, by rw [← ht]; rfl⟩
      · exact hreturn 0 ⟨t, by rw [List.drop_zero, piecesText_cons, ← ht]; rfl⟩
    | quoted quote body =>
      obtain ⟨hquote, hlength⟩ := hp
      have ht : IsTracked true quote := ⟨rfl, hquote⟩
      -- A string at this place ends where the quoted part does: both end at the first quote that is not escaped.
      refine ⟨ht, fun body' t hstring he => ?_⟩
      rw [← List.append_assoc, he, List.append_assoc, hstring.quotedLength ht, Nat.zero_add] at hlength
      exact (List.append_inj he hlength.symm).1.symm

lemma Strips.eq_filter (h : Strips false text r) (hc : ∀ i, ¬ IsContinued text i) :
    r = text.filter fun c => !Text.isBlank c := by
  have htail : ∀ {c s}, (∀ i, ¬ IsContinued (c :: s) i) → ∀ i, ¬ IsContinued s i := fun hc i hi =>
    hc _ (hi.append [_])
  induction h with
  | nil => rfl
  | blank hb h ih => rw [List.filter_cons_of_neg (by simp [hb]), ih (htail hc)]
  | continuation hs =>
    refine absurd ?_ (hc 0)
    exact hs.imp (List.cons_prefix_cons.mpr ⟨rfl, ·⟩) (List.cons_prefix_cons.mpr ⟨rfl, ·⟩)
  | plain hp _ h ih => rw [List.filter_cons_of_pos (by simp [hp.1]), ih (htail hc)]
  | quoted ht => exact absurd ht.1 Bool.false_ne_true

lemma strips_filter (text : List Char) :
    Strips false (text.filter fun c => !Text.isBlank c) (text.filter fun c => !Text.isBlank c) := by
  have hplain : ∀ c ∈ text.filter fun c => !Text.isBlank c, IsOrdinary false c := fun c hc =>
    ⟨by simpa using (List.mem_filter.mp hc).2, fun ht => Bool.false_ne_true ht.1⟩
  have hempty : ¬ OpensLineEnd [] := by decide
  simpa [hempty] using strips_append_plain hplain .nil

end Source

/-! ### Constructs -/

def Language.inner (l : Language) : Language :=
  { l with metadata := .absent, preprocessor := false, directiveWords := [] }

def Language.Writes (l : Language) (text behind : List Char) (key : Key) : Prop :=
  ∃ source before seg following, (cut l (dropByteOrderMark source)).segments = before ++ seg :: following ∧
    seg.text = text ∧ behind = textOf following ++ (cut l (dropByteOrderMark source)).unread ∧ seg.key? = some key

structure Language.Divides (l : Language) (text behind : List Char) (ss : List Segment) : Prop where
  text : textOf ss = text
  read : AreRead l.inner true ss behind

/-- Quotes are tracked in statements, which are the directives without a number sign in front. -/
def tracksQuotes (kind : Kind) (first : Option Char) : Bool := kind = .directive && first ≠ some '#'

/-- The image shows the tokens in the text as they are: there are no comments, blanks only in strings of statements that
are closed on their line, and only such line continuations as are left out. -/
structure IsFaithful (key : Key) (text : List Char) (ss : List Segment) : Prop where
  legible : ∀ s ∈ ss, s.IsLegible (tracksQuotes key.kind text.head?)
  metadata : key.kind = .metadata → ∀ i, ¬ IsContinued text i
  line : key.kind = .directive → text.head? = some '#' → ∀ i, ¬ IsBroken text i
  statement : key.kind = .directive → text.head? ≠ some '#' → ∀ i, ¬ ['\\', '\r', '\n'] <+: text.drop i

lemma Language.Writes.exists_isRead (hl : l ∈ builtin) (h : l.Writes text behind key) :
    ∃ lineStart kind image reach, key = ⟨kind, some (String.ofList image)⟩ ∧
      IsRead l lineStart ⟨.token kind image reach, text⟩ behind := by
  obtain ⟨source, before, seg, following, hsegments, rfl, rfl, hkey⟩ := h
  have hread := (isCut_cut hl (dropByteOrderMark source)).read
  rw [hsegments] at hread
  obtain ⟨-, hread, -⟩ := areRead_append.mp hread
  obtain ⟨role, text⟩ := seg
  cases role with
  | token kind image reach => exact ⟨_, kind, image, reach, (Option.some.inj hkey).symm, hread⟩
  | blank => simp [Segment.key?] at hkey
  | comment => simp [Segment.key?] at hkey

lemma strips_image {kind : Kind} {reach : ℕ} (hl : l ∈ Language.builtin)
    (hk : kind = .directive ∨ kind = .metadata) (h : IsRead l lineStart ⟨.token kind image reach, text⟩ behind)
    (hss : l.Divides text behind ss) (hf : IsFaithful ⟨kind, some (String.ofList image)⟩ text ss) :
    Strips (tracksQuotes kind image.head?) image (significant ss) := by
  have hsignificant := strips_textOf hss.read hf.legible
  rw [hss.text] at hsignificant
  rcases hk with rfl | rfl
  · obtain ⟨c, ps, rfl, hps, rfl, -⟩ := h.exists_pieces hl rfl
    refine strips_imageOf ?_ hsignificant false
    by_cases hc : c = '#'
    · obtain rfl := hc
      exact isStripped_line hps (hf.line rfl rfl)
    · rw [Piece.IsOf, if_neg hc] at hps
      have hhead : (piecesText (.sign c :: ps)).head? ≠ some '#' := fun he => hc (Option.some.inj he)
      have htracked : tracksQuotes .directive (some c) = true := by simpa [tracksQuotes] using hc
      have := isStripped_statement hps (hf.statement rfl hhead)
      rwa [← htracked] at this
  · obtain ⟨-, himage⟩ := (h.token hl rfl).2.2 (by decide)
    rw [hsignificant.eq_filter (hf.metadata rfl), himage]
    exact strips_filter text

/-- If two directives have the same image, or metadata has, the tokens in their texts are the same, as far as the images
show these as they are. -/
theorem Language.significant_eq_of_key (hl : l ∈ builtin) (hk : key.kind = .directive ∨ key.kind = .metadata)
    (h : l.Writes text behind key) (h' : l.Writes text' behind' key)
    (hss : l.Divides text behind ss) (hss' : l.Divides text' behind' ss')
    (hf : IsFaithful key text ss) (hf' : IsFaithful key text' ss') : significant ss = significant ss' := by
  obtain ⟨lineStart, kind, image, reach, rfl, hread⟩ := h.exists_isRead hl
  obtain ⟨lineStart', kind', image', reach', hkey, hread'⟩ := h'.exists_isRead hl
  obtain ⟨rfl, himage⟩ := Key.mk.inj hkey
  obtain rfl := String.ofList_injective (Option.some.inj himage)
  exact (strips_image hl hk hread hss hf).unique (strips_image hl hk hread' hss' hf')

lemma Language.writes_of_cut {kind : Kind} (reach : ℕ)
    (h : cut l (dropByteOrderMark text) = ⟨[⟨.token kind image reach, text⟩], [], none⟩) :
    l.Writes text [] ⟨kind, some (String.ofList image)⟩ :=
  ⟨text, [], _, [], by rw [h]; rfl, rfl, by rw [h]; rfl, rfl⟩

set_option maxRecDepth 20000 in
lemma writes_use : Language.rust.Writes ['u', 's', 'e', '"', '1', ' ', '2', '"'] []
      ⟨.directive, some (String.ofList ['u', 's', 'e', '"', '1', ' ', '2', '"'])⟩ ∧
    Language.rust.Writes ['u', 's', 'e', '"', '1', ' ', '2', '"', ' '] []
      ⟨.directive, some (String.ofList ['u', 's', 'e', '"', '1', ' ', '2', '"'])⟩ :=
  ⟨Language.writes_of_cut 8 (by cbv), Language.writes_of_cut 8 (by cbv)⟩

set_option maxRecDepth 20000 in
lemma isRead_use (z : List Char) :
    IsRead Language.rust.inner true ⟨.token .keyword ['u', 's', 'e'] 3, ['u', 's', 'e']⟩ ('"' :: z) :=
  ⟨'u', ['s', 'e'], rfl, by cbv⟩

set_option maxRecDepth 20000 in
lemma isRead_spaced (z : List Char) : IsRead Language.rust.inner false
    ⟨.token .string ['"', '1', ' ', '2', '"'] 5, ['"', '1', ' ', '2', '"']⟩ z :=
  ⟨'"', ['1', ' ', '2', '"'], rfl, by cbv⟩

theorem Language.significant_eq_of_key_rust :
    rust.Writes ['u', 's', 'e', '"', '1', ' ', '2', '"'] []
      ⟨.directive, some (String.ofList ['u', 's', 'e', '"', '1', ' ', '2', '"'])⟩ ∧
    rust.Writes ['u', 's', 'e', '"', '1', ' ', '2', '"', ' '] []
      ⟨.directive, some (String.ofList ['u', 's', 'e', '"', '1', ' ', '2', '"'])⟩ ∧
    significant [⟨.token .keyword ['u', 's', 'e'] 3, ['u', 's', 'e']⟩,
      ⟨.token .string ['"', '1', ' ', '2', '"'] 5, ['"', '1', ' ', '2', '"']⟩] =
    significant [⟨.token .keyword ['u', 's', 'e'] 3, ['u', 's', 'e']⟩,
      ⟨.token .string ['"', '1', ' ', '2', '"'] 5, ['"', '1', ' ', '2', '"']⟩, ⟨.blank, [' ']⟩] := by
  obtain ⟨h, h'⟩ := writes_use
  have hword : ∀ x ∈ ['u', 's', 'e'], IsOrdinary true x := List.all_iff_forall_prop.mp (by decide)
  have hstring : IsString '"' ['1', ' ', '2', '"'] :=
    .cons (by decide) (by decide) (by decide) <| .cons (by decide) (by decide) (by decide) <|
      .cons (by decide) (by decide) (by decide) .close
  have hquoted : IsLegible true ([] ++ '"' :: ['1', ' ', '2', '"']) :=
    .quoted (List.forall_mem_nil _) ⟨rfl, rfl⟩ hstring
  have hlegible : ∀ s ∈ ([⟨.token .keyword ['u', 's', 'e'] 3, ['u', 's', 'e']⟩,
      ⟨.token .string ['"', '1', ' ', '2', '"'] 5, ['"', '1', ' ', '2', '"']⟩, ⟨.blank, [' ']⟩] : List Segment),
      s.IsLegible true := by
    intro s hs
    simp only [List.mem_cons, List.not_mem_nil, or_false] at hs
    rcases hs with rfl | rfl | rfl
    · exact ⟨by simp, fun _ => .plain hword⟩
    · exact ⟨by simp, fun _ => hquoted⟩
    · exact ⟨by simp, by simp [Segment.isToken]⟩
  have hescape : ∀ text : List Char, '\\' ∉ text → ∀ i, ¬ ['\\', '\r', '\n'] <+: text.drop i :=
    fun text htext i hi => htext (List.mem_of_mem_drop (hi.subset List.mem_cons_self))
  refine ⟨h, h', significant_eq_of_key (by decide +kernel) (.inl rfl) h h'
    ⟨rfl, isRead_use _, isRead_spaced _, trivial⟩
    ⟨rfl, isRead_use _, isRead_spaced _, (areRead_blank (by decide) _ _).1, trivial⟩
    ⟨fun s hs => hlegible s (List.mem_append_left [_] hs), by simp, by simp, ?_⟩
    ⟨hlegible, by simp, by simp, ?_⟩⟩
  · exact fun _ _ => hescape _ (by decide)
  · exact fun _ _ => hescape _ (by decide)

set_option maxRecDepth 20000 in
lemma writes_bracketed : Language.rust.Writes ['#', '[', '"', '1', ' ', '2', '"', ']'] []
      ⟨.metadata, some (String.ofList ['#', '[', '"', '1', '2', '"', ']'])⟩ ∧
    Language.rust.Writes ['#', '[', '"', '1', '2', '"', ']'] []
      ⟨.metadata, some (String.ofList ['#', '[', '"', '1', '2', '"', ']'])⟩ :=
  ⟨Language.writes_of_cut 8 (by cbv), Language.writes_of_cut 7 (by cbv)⟩

set_option maxRecDepth 20000 in
lemma isRead_brackets (z : List Char) :
    IsRead Language.rust.inner true ⟨.token .operator ['#'] 1, ['#']⟩ ('[' :: z) ∧
    IsRead Language.rust.inner false ⟨.token .operator ['['] 1, ['[']⟩ ('"' :: z) ∧
    IsRead Language.rust.inner false ⟨.token .string ['"', '1', '2', '"'] 4, ['"', '1', '2', '"']⟩ z ∧
    IsRead Language.rust.inner false ⟨.token .operator [']'] 1, [']']⟩ [] :=
  ⟨⟨'#', [], rfl, by cbv⟩, ⟨'[', [], rfl, by cbv⟩, ⟨'"', ['1', '2', '"'], rfl, by cbv⟩, ⟨']', [], rfl, by cbv⟩⟩

theorem Language.image_hides_blank : ¬ ∀ l ∈ builtin, ∀ (key : Key) (text behind text' behind' : List Char)
    (ss ss' : List Segment), key.kind = .directive ∨ key.kind = .metadata →
    l.Writes text behind key → l.Writes text' behind' key →
    l.Divides text behind ss → l.Divides text' behind' ss' → significant ss = significant ss' := by
  intro h
  have heq := h rust (by decide +kernel) _ _ _ _ _
    [⟨.token .operator ['#'] 1, ['#']⟩, ⟨.token .operator ['['] 1, ['[']⟩,
      ⟨.token .string ['"', '1', ' ', '2', '"'] 5, ['"', '1', ' ', '2', '"']⟩, ⟨.token .operator [']'] 1, [']']⟩]
    [⟨.token .operator ['#'] 1, ['#']⟩, ⟨.token .operator ['['] 1, ['[']⟩,
      ⟨.token .string ['"', '1', '2', '"'] 4, ['"', '1', '2', '"']⟩, ⟨.token .operator [']'] 1, [']']⟩]
    (.inr rfl) writes_bracketed.1 writes_bracketed.2
    ⟨rfl, (isRead_brackets _).1, (isRead_brackets _).2.1, isRead_spaced _, (isRead_brackets []).2.2.2, trivial⟩
    ⟨rfl, (isRead_brackets _).1, (isRead_brackets _).2.1, (isRead_brackets _).2.2.1, (isRead_brackets []).2.2.2,
      trivial⟩
  exact absurd heq (by decide)

end CodeClones
