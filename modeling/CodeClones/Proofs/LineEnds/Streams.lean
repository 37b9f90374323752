import Mathlib
import CodeClones.Proofs.LineEnds.Readings
import CodeClones.Proofs.Source.Segments

/-! Whether lines end with a line feed or with a carriage return and a line feed makes no difference for the tokens. -/

namespace CodeClones

open Source

variable {l : Language} {lineStart : Bool} {c : Char} {rest text : List Char} {file : ℕ} {p p' : Position}

/-! ### Places -/

namespace Position

@[simp] lemma line_after_return (p : Position) : (p.after '\r').line = p.line := rfl

lemma after_lineFeed (h : p'.line = p.line) : p'.after '\n' = p.after '\n' := by
  rw [after, after, if_pos rfl, if_pos rfl, h]

lemma afterText_withReturns (p : Position) (text : List Char) : p.afterText (withReturns text) = p.afterText text := by
  induction text generalizing p with
  | nil => rfl
  | cons c text ih =>
    by_cases hc : c = '\n'
    · subst hc
      rw [withReturns_lineFeed, afterText_cons, afterText_cons, after_lineFeed (line_after_return p), ih,
        afterText_cons]
    · rw [withReturns_cons hc, afterText_cons, ih, afterText_cons]

end Position

/-! ### Streams -/

def Token.start (t : Token) : Key × Position := (t.key, t.first)

structure TokenStream.SameStarts (s s' : TokenStream) : Prop where
  tokens : s.tokens.map Token.start = s'.tokens.map Token.start
  error : s.error = s'.error

lemma Normalization.map_start_apply (n : Normalization) (t : Token) :
    (n.apply t).map Token.start = (n.applyKey t.key).map (·, t.first) := by
  by_cases hd : n.drops t.kind = true
  · simp [apply, applyKey, Token.key, hd]
  · by_cases hc : n.collapses t.kind = true <;> simp [apply, applyKey, Token.start, Token.key, hd, hc]

lemma TokenStream.SameStarts.normalize {s s' : TokenStream} (h : s.SameStarts s') (n : Normalization) :
    (s.normalize n).SameStarts (s'.normalize n) := by
  have hn : ∀ tokens : List Token, (tokens.filterMap n.apply).map Token.start =
      (tokens.map Token.start).filterMap fun start => (n.applyKey start.1).map (·, start.2) := by
    intro tokens
    simp only [List.map_filterMap, List.filterMap_map, n.map_start_apply]
    rfl
  exact ⟨by rw [TokenStream.normalize, TokenStream.normalize, hn, hn, h.tokens], h.error⟩

namespace Source

def Cut.streamFrom (k : Cut) (file : ℕ) (p : Position) : TokenStream where
  tokens := tokensOnto file [] p k.segments
  error := k.failure.map fun f =>
    ⟨(k.segments.foldl (fun p s => p.afterText s.text) p).afterText (k.unread.take f.offset), f.fault.message⟩

lemma starts_tokensOnto_cons (file : ℕ) (p : Position) (s : Segment) (ss : List Segment) :
    (tokensOnto file [] p (s :: ss)).map Token.start =
      (s.token? file p).toList.map Token.start ++ (tokensOnto file [] (p.afterText s.text) ss).map Token.start := by
  rw [tokensOnto, tokensOnto_eq, List.map_append]
  cases s.token? file p <;> rfl

lemma Cut.sameStarts_follow {k k' : Cut} {s s' : Segment} (hrole : s.role.Matches s'.role)
    (h : (k.streamFrom file (p.afterText s.text)).SameStarts (k'.streamFrom file (p.afterText s'.text))) :
    ((k.follow [s]).streamFrom file p).SameStarts ((k'.follow [s']).streamFrom file p) := by
  refine ⟨?_, h.error⟩
  have htokens := h.tokens
  simp only [Cut.streamFrom] at htokens
  simp only [Cut.streamFrom, Cut.follow, List.singleton_append, starts_tokensOnto_cons, htokens]
  congr 1
  obtain ⟨role, text⟩ := s
  obtain ⟨role', text'⟩ := s'
  cases hrole <;> rfl

lemma Cut.streamFrom_follow_blank (k : Cut) (text : List Char) (file : ℕ) (p : Position) :
    (k.follow [⟨.blank, text⟩]).streamFrom file p = k.streamFrom file (p.afterText text) := rfl

lemma lineStartAfter_lineFeed : ∀ lineStart, (⟨.blank, ['\n']⟩ : Segment).lineStartAfter lineStart = true := by
  decide

lemma lineStartAfter_return : ∀ lineStart, (⟨.blank, ['\r']⟩ : Segment).lineStartAfter lineStart = lineStart := by
  decide

lemma lineStartAfter_matches {role role' : Role} (hrole : role.Matches role') {u v : List Char}
    (htext : '\n' ∈ u ↔ '\n' ∈ v) (lineStart : Bool) :
    (⟨role, u⟩ : Segment).lineStartAfter lineStart = (⟨role', v⟩ : Segment).lineStartAfter lineStart := by
  have hcontains : u.contains '\n' = v.contains '\n' := by
    rwa [Bool.eq_iff_iff, List.contains_iff_mem, List.contains_iff_mem]
  cases hrole with
  | token => rfl
  | blank => simp only [Segment.lineStartAfter, Segment.isToken, hcontains]
  | comment => simp only [Segment.lineStartAfter, Segment.isToken, hcontains]

lemma mem_withReturns_lineFeed : '\n' ∈ withReturns text ↔ '\n' ∈ text := by
  refine ⟨fun h => (mem_withReturns h).resolve_left (by decide), fun h => ?_⟩
  exact List.mem_flatMap.mpr ⟨'\n', h, by decide⟩

/-! ### Cuts side by side -/

/-- The streams of a text and of the text with carriage returns, unless a statement goes on behind a backslash. -/
def StreamsMeet (l : Language) (file : ℕ) (text : List Char) : Prop :=
  ∀ lineStart p, (∀ s ∈ (cutOnto l [] lineStart text).segments, ¬ s.IsContinued) →
    ((cutOnto l [] lineStart text).streamFrom file p).SameStarts
      ((cutOnto l [] lineStart (withReturns text)).streamFrom file p)

lemma StreamsMeet.lineFeed (h : StreamsMeet l file text) {flag flag' : Bool} (hp : p'.line = p.line)
    (hc : ∀ s ∈ (cutOnto l [] flag ('\n' :: text)).segments, ¬ s.IsContinued) :
    ((cutOnto l [] flag ('\n' :: text)).streamFrom file p).SameStarts
      ((cutOnto l [] flag' ('\n' :: withReturns text)).streamFrom file p') := by
  rw [cutOnto_blank (by decide), lineStartAfter_lineFeed] at hc ⊢
  rw [cutOnto_blank (by decide), lineStartAfter_lineFeed, Cut.streamFrom_follow_blank, Cut.streamFrom_follow_blank,
    Position.afterText_cons, Position.afterText_cons, Position.after_lineFeed hp]
  exact h true _ fun s hs => hc s (List.mem_cons_of_mem _ hs)

lemma sameStarts_ok {r r' : Reading} (hr : read l lineStart c rest = .ok r)
    (hr' : read l lineStart c (withReturns rest) = .ok r') (hmeet : ReadingsMeet rest (.ok r) (.ok r'))
    (hc : ∀ s ∈ (cutOnto l [] lineStart (c :: rest)).segments, ¬ s.IsContinued)
    (h : ∀ behind, behind <:+ rest → StreamsMeet l file behind) :
    ((cutOnto l [] lineStart (c :: rest)).streamFrom file p).SameStarts
      ((cutOnto l [] lineStart (c :: withReturns rest)).streamFrom file p) := by
  obtain ⟨role, k⟩ := r
  obtain ⟨role', k'⟩ := r'
  obtain ⟨hrole, hreach⟩ := hmeet
  rw [cutOnto_cons hr] at hc ⊢
  rw [cutOnto_cons hr']
  refine Cut.sameStarts_follow hrole ?_
  replace hc := fun s hs => hc s (List.mem_cons_of_mem _ hs)
  rcases hreach with ⟨body, behind, rfl, rfl, rfl⟩ | ⟨body, behind, rfl, rfl, rfl⟩
  · have hline : '\n' ∈ c :: body ↔ '\n' ∈ c :: withReturns body := by
      simp [mem_withReturns_lineFeed]
    dsimp only at hc ⊢
    rw [Nat.zero_add, List.take_left, List.drop_left] at hc ⊢
    rw [Nat.zero_add, withReturns_append, List.take_left, List.drop_left,
      ← lineStartAfter_matches hrole hline lineStart, Position.afterText_cons, Position.afterText_cons,
      Position.afterText_withReturns]
    exact h behind (List.suffix_append _ _) _ _ hc
  · have hsplit : withReturns (body ++ '\n' :: behind) =
        (withReturns body ++ ['\r']) ++ '\n' :: withReturns behind := by simp
    have hlength : 0 + (withReturns body).length + 1 = (withReturns body ++ ['\r']).length := by simp
    dsimp only at hc ⊢
    rw [Nat.zero_add, List.take_left, List.drop_left] at hc ⊢
    rw [hsplit, hlength, List.take_left, List.drop_left]
    refine (h behind ?_).lineFeed ?_ hc
    · exact (List.suffix_cons _ _).trans (List.suffix_append _ _)
    · rw [Position.afterText_cons, Position.afterText_cons, Position.afterText_append, Position.afterText_withReturns]
      rfl

lemma streamsMeet (hl : l ∈ Language.builtin) (hs : IsBare text) (file : ℕ) : StreamsMeet l file text := by
  -- A reading takes many characters at once, so the induction is on the length.
  induction hn : text.length using Nat.strongRecOn generalizing text with
  | ind n ih =>
    intro lineStart p hc
    cases text with
    | nil => exact ⟨rfl, rfl⟩
    | cons c rest =>
      have htail : ∀ behind, behind <:+ rest → StreamsMeet l file behind := by
        rintro behind ⟨body, rfl⟩
        refine ih _ ?_ (IsBare.append_iff.mp hs.tail).2 rfl
        rw [← hn, List.length_cons, List.length_append]
        omega
      by_cases hf : c = '\n'
      · subst hf
        rw [withReturns_lineFeed, cutOnto_blank (c := '\r') (by decide), lineStartAfter_return,
          Cut.streamFrom_follow_blank]
        exact (htail rest List.suffix_rfl).lineFeed rfl hc
      have hmeet : ReadingsMeet rest (read l lineStart c rest) (read l lineStart c (withReturns rest)) := by
        refine meet_read hl hs hf fun r hr => hc _ ?_
        rw [cutOnto_cons hr]
        exact List.mem_cons_self
      rw [withReturns_cons hf]
      generalize hr : read l lineStart c rest = x, hr' : read l lineStart c (withReturns rest) = x' at hmeet
      cases x with
      | error f =>
        cases x' with
        | ok r' => exact hmeet.elim
        | error f' =>
          obtain ⟨rfl, hzero⟩ := hmeet
          rw [cutOnto_of_error hr, cutOnto_of_error hr']
          refine ⟨rfl, ?_⟩
          simp only [Cut.streamFrom, Option.map_some, hzero, List.take_zero]
      | ok r =>
        cases x' with
        | error f' => exact hmeet.elim
        | ok r' => exact sameStarts_ok hr hr' hmeet hc htail

lemma dropByteOrderMark_withReturns (text : List Char) :
    dropByteOrderMark (withReturns text) = withReturns (dropByteOrderMark text) := by
  cases text with
  | nil => rfl
  | cons c text =>
    by_cases hf : c = '\n'
    · subst hf
      rfl
    · by_cases hc : c = '\uFEFF'
      · rw [hc]
        rfl
      · rw [withReturns_cons hf, dropByteOrderMark.eq_2 _ (by simp [hc]), dropByteOrderMark.eq_2 _ (by simp [hc]),
          withReturns_cons hf]

end Source

/-- Texts without carriage returns and quotes give the same tokens at the same places, and the same error, if each line
feed gets a carriage return in front, unless a statement goes on behind a line feed after a backslash. -/
theorem Language.tokenize_withReturns {l : Language} (hl : l ∈ builtin) {source : String}
    (hs : ∀ c ∈ source.toList, c ∉ ['\r', '"', '\'', '\x60'])
    (hc : ∀ s ∈ (cut l (dropByteOrderMark source.toList)).segments, ¬ s.IsContinued)
    (file : ℕ) (n : Normalization) :
    (l.tokenize source file n).SameStarts (l.tokenize (String.ofList (withReturns source.toList)) file n) := by
  refine TokenStream.SameStarts.normalize ?_ n
  rw [String.toList_ofList, dropByteOrderMark_withReturns]
  have hbare : IsBare (dropByteOrderMark source.toList) := fun c h => hs c ((dropByteOrderMark_suffix _).subset h)
  exact streamsMeet hl hbare file true .start hc

set_option maxRecDepth 20000 in
theorem Language.tokenize_withReturns_c :
    (∀ c ∈ "#a \\\nb // d\ne".toList, c ∉ ['\r', '"', '\'', '\x60']) ∧
    (∀ s ∈ (cut Language.c (dropByteOrderMark "#a \\\nb // d\ne".toList)).segments, ¬ s.IsContinued) ∧
    (Language.c.tokenize "#a \\\nb // d\ne" 0 {}).SameStarts
      (Language.c.tokenize "#a \\\r\nb // d\r\ne" 0 {}) := by
  have hsegments : (cut Language.c (dropByteOrderMark "#a \\\nb // d\ne".toList)).segments =
      [⟨.token .directive ['#', 'a', ' ', 'b'] 6, ['#', 'a', ' ', '\\', '\n', 'b', ' ']⟩,
        ⟨.comment, "// d".toList⟩, ⟨.blank, ['\n']⟩, ⟨.token .identifier ['e'] 1, ['e']⟩] := by
    cbv
  have hc : ∀ s ∈ (cut Language.c (dropByteOrderMark "#a \\\nb // d\ne".toList)).segments, ¬ s.IsContinued := by
    rw [hsegments]
    simp [Segment.IsContinued]
  have hsource : String.ofList (withReturns "#a \\\nb // d\ne".toList) = "#a \\\r\nb // d\r\ne" := by
    cbv
  have hs : ∀ c ∈ "#a \\\nb // d\ne".toList, c ∉ ['\r', '"', '\'', '\x60'] := by
    simp
  refine ⟨hs, hc, ?_⟩
  rw [← hsource]
  exact Language.tokenize_withReturns (by decide +kernel) hs hc 0 {}

set_option maxRecDepth 20000 in
theorem Language.return_ends_statement : ¬ ∀ l ∈ Language.builtin, ∀ source : String,
    (∀ c ∈ source.toList, c ∉ ['\r', '"', '\'', '\x60']) →
    (l.tokenize (String.ofList (withReturns source.toList)) 0 {}).tokens.map Token.start =
        (l.tokenize source 0 {}).tokens.map Token.start ∧
      (l.tokenize (String.ofList (withReturns source.toList)) 0 {}).error.isSome =
        (l.tokenize source 0 {}).error.isSome := by
  intro h
  have htokens : (Language.python.tokenize "from a import \\\n b" 0 {}).tokens =
      [⟨.directive, some "from a import b", 0, ⟨1, 1⟩, ⟨2, 2⟩⟩] := by
    cbv
  have htokens' :
      (Language.python.tokenize (String.ofList (withReturns "from a import \\\n b".toList)) 0 {}).tokens =
      [⟨.directive, some "from a import \\", 0, ⟨1, 1⟩, ⟨1, 15⟩⟩,
        ⟨.identifier, some "b", 0, ⟨2, 2⟩, ⟨2, 2⟩⟩] := by
    cbv
  have heq := (h Language.python (by decide +kernel) "from a import \\\n b" (by simp)).1
  rw [htokens, htokens'] at heq
  exact absurd (congrArg List.length heq) (by simp)

end CodeClones
