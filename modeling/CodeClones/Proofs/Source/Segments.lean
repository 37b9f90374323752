import CodeClones.Proofs.Source.Readings
import CodeClones.Source.Stream

/-! A text is cut into the segments that are read one behind the other, and only the segments decide about the keys
of its tokens. -/

namespace CodeClones

def Normalization.applyKey (n : Normalization) (key : Key) : Option Key :=
  if n.drops key.kind then none else if n.collapses key.kind then some ⟨key.kind, none⟩ else some key

lemma Normalization.map_key_apply (n : Normalization) (t : Token) :
    (n.apply t).map Token.key = n.applyKey t.key := by
  by_cases hd : n.drops t.kind = true
  · simp [apply, applyKey, Token.key, hd]
  · by_cases hc : n.collapses t.kind = true <;> simp [apply, applyKey, Token.key, hd, hc]

namespace Source

variable {l : Language} {lineStart : Bool} {s : Segment} {ss ts : List Segment} {text rest behind : List Char}
  {c : Char} {p : ℕ} {f : Failure} {k k' : Cut}

def textOf (ss : List Segment) : List Char := ss.flatMap (·.text)

@[simp] lemma textOf_nil : textOf [] = [] := rfl

@[simp] lemma textOf_cons (s : Segment) (ss : List Segment) : textOf (s :: ss) = s.text ++ textOf ss := rfl

@[simp] lemma textOf_append (ss ts : List Segment) : textOf (ss ++ ts) = textOf ss ++ textOf ts :=
  List.flatMap_append

def flagAfter (lineStart : Bool) (ss : List Segment) : Bool := ss.foldl (fun b s => s.lineStartAfter b) lineStart

@[simp] lemma flagAfter_cons (lineStart : Bool) (s : Segment) (ss : List Segment) :
    flagAfter lineStart (s :: ss) = flagAfter (s.lineStartAfter lineStart) ss := rfl

lemma flagAfter_append (lineStart : Bool) (ss ts : List Segment) :
    flagAfter lineStart (ss ++ ts) = flagAfter (flagAfter lineStart ss) ts :=
  List.foldl_append

def IsRead (l : Language) (lineStart : Bool) (s : Segment) (behind : List Char) : Prop :=
  ∃ c u, s.text = c :: u ∧ read l lineStart c (u ++ behind) = .ok ⟨s.role, u.length⟩

/-- Each segment is read where the segment before it ends. -/
def AreRead (l : Language) (lineStart : Bool) : List Segment → List Char → Prop
  | [], _ => True
  | s :: ss, behind => IsRead l lineStart s (textOf ss ++ behind) ∧ AreRead l (s.lineStartAfter lineStart) ss behind

lemma areRead_singleton : AreRead l lineStart [s] behind ↔ IsRead l lineStart s behind := by
  simp [AreRead]

lemma areRead_blank (hc : Text.isBlank c = true) (lineStart : Bool) (behind : List Char) :
    AreRead l lineStart [⟨.blank, [c]⟩] behind :=
  ⟨⟨c, [], rfl, read_blank l lineStart hc _⟩, trivial⟩

lemma areRead_append : AreRead l lineStart (ss ++ ts) behind ↔
    AreRead l lineStart ss (textOf ts ++ behind) ∧ AreRead l (flagAfter lineStart ss) ts behind := by
  induction ss generalizing lineStart with
  | nil => simp [AreRead, flagAfter]
  | cons s ss ih => simp [AreRead, ih, and_assoc]

def Cut.follow (k : Cut) (ss : List Segment) : Cut := { k with segments := ss ++ k.segments }

lemma cutOnto_eq (l : Language) (done : List Segment) (lineStart : Bool) (text : List Char) :
    cutOnto l done lineStart text = (cutOnto l [] lineStart text).follow done.reverse := by
  have hrest : ∀ done, (cutOnto l done lineStart text).unread = (cutOnto l [] lineStart text).unread ∧
      (cutOnto l done lineStart text).failure = (cutOnto l [] lineStart text).failure := by
    induction h : text.length using Nat.strongRecOn generalizing lineStart text with
    | ind n ih =>
      intro done
      cases text with
      | nil => simp [cutOnto]
      | cons c rest =>
        rw [cutOnto, cutOnto]
        cases read l lineStart c rest with
        | error f => exact ⟨rfl, rfl⟩
        | ok r =>
          have hlt : (rest.drop r.more).length < n := by
            rw [← h, List.length_drop, List.length_cons]
            omega
          dsimp only
          rw [(ih _ hlt _ _ rfl _).1, (ih _ hlt _ _ rfl _).2, (ih _ hlt _ _ rfl [_]).1, (ih _ hlt _ _ rfl [_]).2]
          exact ⟨rfl, rfl⟩
  obtain ⟨hunread, hfailure⟩ := hrest done
  rw [Cut.mk.injEq]
  exact ⟨segments_cutOnto l done lineStart text, hunread, hfailure⟩

lemma cutOnto_cons {r : Reading} (h : read l lineStart c rest = .ok r) : cutOnto l [] lineStart (c :: rest) =
    (cutOnto l [] ((⟨r.role, c :: rest.take r.more⟩ : Segment).lineStartAfter lineStart) (rest.drop r.more)).follow
      [⟨r.role, c :: rest.take r.more⟩] := by
  rw [cutOnto, h]
  dsimp only
  rw [cutOnto_eq]
  rfl

lemma cutOnto_of_error {f : Failure} (h : read l lineStart c rest = .error f) :
    cutOnto l [] lineStart (c :: rest) = ⟨[], c :: rest, some f⟩ := by
  rw [cutOnto, h]
  rfl

lemma cutOnto_blank (hc : Text.isBlank c = true) (lineStart : Bool) (rest : List Char) :
    cutOnto l [] lineStart (c :: rest) =
      (cutOnto l [] ((⟨.blank, [c]⟩ : Segment).lineStartAfter lineStart) rest).follow [⟨.blank, [c]⟩] :=
  cutOnto_cons (read_blank l lineStart hc rest)

lemma cutOnto_textOf (h : AreRead l lineStart ss behind) :
    cutOnto l [] lineStart (textOf ss ++ behind) = (cutOnto l [] (flagAfter lineStart ss) behind).follow ss := by
  induction ss generalizing lineStart with
  | nil => rfl
  | cons s ss ih =>
    obtain ⟨⟨c, u, hs, hr⟩, h⟩ := h
    have heq : (⟨s.role, c :: u⟩ : Segment) = s := by rw [← hs]
    rw [textOf_cons, hs, List.append_assoc, List.cons_append, cutOnto, hr]
    dsimp only
    rw [List.take_left, List.drop_left, heq, cutOnto_eq, ih h, flagAfter_cons]
    simp [Cut.follow]

/-- What a text is cut into: segments that are read, and nothing behind them or something that cannot be read. -/
structure IsCut (l : Language) (lineStart : Bool) (text : List Char) (k : Cut) : Prop where
  text_eq : textOf k.segments ++ k.unread = text
  read : AreRead l lineStart k.segments k.unread
  stop : k.failure = none ∧ k.unread = [] ∨ ∃ f c u, k.failure = some f ∧ k.unread = c :: u ∧
    Source.read l (flagAfter lineStart k.segments) c u = .error f

lemma IsCut.unread_eq_nil (h : IsCut l lineStart text k) (hf : k.failure = none) : k.unread = [] := by
  rcases h.stop with ⟨-, hnil⟩ | ⟨f, c, u, hsome, -⟩
  · exact hnil
  · exact absurd (hf.symm.trans hsome) (by simp)

lemma IsCut.follow (h : IsCut l (flagAfter lineStart ss) text k) (hs : AreRead l lineStart ss text) :
    IsCut l lineStart (textOf ss ++ text) (k.follow ss) where
  text_eq := by simp [Cut.follow, h.text_eq]
  read := areRead_append.mpr ⟨by rwa [Cut.follow, h.text_eq], h.read⟩
  stop := by simpa only [Cut.follow, flagAfter_append] using h.stop

lemma isCut_cutOnto (hl : l ∈ Language.builtin) (lineStart : Bool) (text : List Char) :
    IsCut l lineStart text (cutOnto l [] lineStart text) := by
  induction h : text.length using Nat.strongRecOn generalizing lineStart text with
  | ind n ih =>
    cases text with
    | nil => exact ⟨by simp [cutOnto], by simp [cutOnto, AreRead], .inl (by simp [cutOnto])⟩
    | cons c rest =>
      rw [cutOnto]
      cases hr : Source.read l lineStart c rest with
      | error f => exact ⟨rfl, trivial, .inr ⟨f, c, rest, rfl, rfl, hr⟩⟩
      | ok r =>
        have hs : AreRead l lineStart [⟨r.role, c :: rest.take r.more⟩] (rest.drop r.more) := by
          refine ⟨⟨c, rest.take r.more, rfl, ?_⟩, trivial⟩
          rw [textOf_nil, List.nil_append, List.take_append_drop, hr, List.length_take,
            Nat.min_eq_left (more_le_of_read hl hr)]
        have hlt : (rest.drop r.more).length < n := by
          rw [← h, List.length_drop, List.length_cons]
          omega
        have ht := (ih _ hlt _ _ rfl).follow hs
        dsimp only
        rw [cutOnto_eq]
        simpa [flagAfter] using ht

lemma isCut_cut (hl : l ∈ Language.builtin) (text : List Char) : IsCut l true text (cut l text) :=
  isCut_cutOnto hl true text

lemma exists_segment_at (h : p < (textOf ss).length) : ∃ before s behind, ss = before ++ s :: behind ∧
    (textOf before).length ≤ p ∧ p < (textOf before).length + s.text.length := by
  induction ss generalizing p with
  | nil => simp at h
  | cons s ss ih =>
    by_cases hp : p < s.text.length
    · exact ⟨[], s, ss, rfl, Nat.zero_le p, by simpa using hp⟩
    · rw [textOf_cons, List.length_append] at h
      obtain ⟨before, t, behind, rfl, h₁, h₂⟩ := ih (p := p - s.text.length) (by omega)
      refine ⟨s :: before, t, behind, rfl, ?_, ?_⟩ <;> rw [textOf_cons, List.length_append] <;> omega

lemma dropByteOrderMark_suffix (s : List Char) : dropByteOrderMark s <:+ s := by
  rw [dropByteOrderMark.eq_def]
  split
  · exact List.suffix_cons _ _
  · exact List.suffix_rfl

lemma dropByteOrderMark_append (s : List Char) {t : List Char} (ht : t.head? ≠ some '\uFEFF') :
    dropByteOrderMark (s ++ t) = dropByteOrderMark s ++ t := by
  cases s with
  | nil =>
    rw [List.nil_append, dropByteOrderMark.eq_def]
    split
    · simp at ht
    · rfl
  | cons c s =>
    by_cases hc : c = '\uFEFF'
    · rw [hc]
      rfl
    · rw [List.cons_append, dropByteOrderMark.eq_2, dropByteOrderMark.eq_2, List.cons_append] <;>
        simp [hc]

/-! ### Keys -/

def Segment.key? (s : Segment) : Option Key :=
  match s.role with
  | .token kind image _ => some ⟨kind, some (String.ofList image)⟩
  | _ => none

lemma key?_of_not_isToken (h : s.isToken = false) : s.key? = none := by
  obtain ⟨role, text⟩ := s
  cases role <;> simp_all [Segment.isToken, Segment.key?]

def keysOf (ss : List Segment) : List Key := ss.filterMap Segment.key?

@[simp] lemma keysOf_append (ss ts : List Segment) : keysOf (ss ++ ts) = keysOf ss ++ keysOf ts :=
  List.filterMap_append

lemma keysOf_cons (s : Segment) (ss : List Segment) : keysOf (s :: ss) = s.key?.toList ++ keysOf ss := by
  rw [keysOf, List.filterMap_cons]
  cases s.key? <;> rfl

@[simp] lemma keysOf_cons_of_not_isToken (h : s.isToken = false) (ss : List Segment) :
    keysOf (s :: ss) = keysOf ss := by
  rw [keysOf_cons, key?_of_not_isToken h]
  rfl

lemma map_key_tokensOnto (file : ℕ) (p : Position) (ss : List Segment) :
    (tokensOnto file [] p ss).map Token.key = keysOf ss := by
  induction ss generalizing p with
  | nil => rfl
  | cons s ss ih =>
    rw [tokensOnto, tokensOnto_eq, List.map_append, ih, keysOf_cons]
    congr 1
    obtain ⟨role, text⟩ := s
    cases role <;> rfl

lemma exists_token_of_mem {kind : Kind} {image : List Char} {reach : ℕ} (hs : s ∈ ss)
    (hr : s.role = .token kind image reach) (file : ℕ) (p : Position) :
    ∃ t ∈ tokensOnto file [] p ss, t.key = ⟨kind, some (String.ofList image)⟩ := by
  apply List.mem_map.mp
  rw [map_key_tokensOnto]
  exact List.mem_filterMap.mpr ⟨s, hs, by rw [Segment.key?, hr]⟩

structure Cut.SameKeys (n : Normalization) (k k' : Cut) : Prop where
  keys : (keysOf k.segments).filterMap n.applyKey = (keysOf k'.segments).filterMap n.applyKey
  fault : k.failure.map (·.fault) = k'.failure.map (·.fault)

lemma Cut.SameKeys.refl (n : Normalization) (k : Cut) : k.SameKeys n k := ⟨rfl, rfl⟩

lemma Cut.SameKeys.follow {n : Normalization} (h : k.SameKeys n k')
    (hs : (keysOf ss).filterMap n.applyKey = (keysOf ts).filterMap n.applyKey) :
    (k.follow ss).SameKeys n (k'.follow ts) :=
  ⟨by simp only [Cut.follow, keysOf_append, List.filterMap_append, h.keys, hs], h.fault⟩

end Source

open Source

/-- The streams have the same keys, and both end with an error for the same reason, if they do. -/
structure TokenStream.Agrees (s s' : TokenStream) : Prop where
  keys : s.tokens.map Token.key = s'.tokens.map Token.key
  error : s.error.map (·.reason) = s'.error.map (·.reason)

lemma Language.tokenize_default (l : Language) (source : String) (file : ℕ) :
    l.tokenize source file {} = (cut l (dropByteOrderMark source.toList)).stream file := by
  simp only [tokenize, TokenStream.normalize, Normalization.apply_default, List.filterMap_some]

lemma Language.map_key_tokenize (l : Language) (source : String) (file : ℕ) (n : Normalization) :
    (l.tokenize source file n).tokens.map Token.key =
      (keysOf (cut l (dropByteOrderMark source.toList)).segments).filterMap n.applyKey := by
  rw [← map_key_tokensOnto file .start]
  simp only [tokenize, TokenStream.normalize, Cut.stream, tokens, List.map_filterMap, List.filterMap_map,
    n.map_key_apply]
  rfl

lemma Language.map_reason_tokenize (l : Language) (source : String) (file : ℕ) (n : Normalization) :
    (l.tokenize source file n).error.map (·.reason) =
      ((cut l (dropByteOrderMark source.toList)).failure.map (·.fault)).map Fault.message := by
  simp only [tokenize, TokenStream.normalize, Cut.stream, Option.map_map]
  rfl

lemma Language.agrees_tokenize {l : Language} {n : Normalization} {source source' : String}
    (h : (cut l (dropByteOrderMark source.toList)).SameKeys n (cut l (dropByteOrderMark source'.toList)))
    (file file' : ℕ) : (l.tokenize source file n).Agrees (l.tokenize source' file' n) :=
  ⟨by rw [map_key_tokenize, map_key_tokenize, h.keys], by rw [map_reason_tokenize, map_reason_tokenize, h.fault]⟩

end CodeClones
