import Mathlib.Data.List.Induction
import CodeClones.Proofs.Source.Segments

/-! Each token of a source text stands where its places say, and shows what stands there. -/

namespace CodeClones

variable {l : Language} {lineStart : Bool} {text s t pre behind : List Char} {i j file : ℕ}

namespace Position

def behindText (s : List Char) : Position :=
  ⟨s.count '\n' + 1, (s.reverse.takeWhile (· ≠ '\n')).length + 1⟩

def ofIndex (text : List Char) (i : ℕ) : Position := behindText (text.take i)

lemma afterText_start (h : s.length < maxCoordinate) : start.afterText s = behindText s := by
  induction s using List.reverseRecOn with
  | nil => rfl
  | append_singleton s c ih =>
    rw [List.length_append, List.length_singleton] at h
    rw [afterText_append, ih (by omega), afterText_cons, afterText_nil]
    have hline : s.count '\n' ≤ s.length := List.count_le_length
    have hcolumn : (s.reverse.takeWhile (· ≠ '\n')).length ≤ s.length := by
      simpa using (List.takeWhile_prefix (l := s.reverse) (· ≠ '\n')).length_le
    have hbump : ∀ m, m ≤ s.length → bump (m + 1) = m + 2 := fun m hm => by
      rw [bump]
      omega
    by_cases hc : c = '\n'
    · simp [behindText, after, hc, hbump _ hline]
    · rw [after, if_neg hc]
      simp only [behindText, hbump _ hcolumn]
      simp [hc, List.count_append]

lemma before_behindText (s : List Char) (h : t ≠ []) : (behindText s).Before (behindText (s ++ t)) := by
  by_cases ht : '\n' ∈ t
  · have := List.count_pos_iff.mpr ht
    exact .inl (by simp only [behindText, List.count_append]; omega)
  · refine .inr ⟨by simp [behindText, List.count_eq_zero_of_not_mem ht], ?_⟩
    have hall : ∀ x ∈ t.reverse, decide (x ≠ '\n') = true := fun x hx => by
      simpa using fun he : x = '\n' => ht (he ▸ List.mem_reverse.mp hx)
    have := List.length_pos_iff.mpr h
    simp only [behindText, List.reverse_append, List.takeWhile_append_of_pos hall, List.length_append,
      List.length_reverse]
    omega

lemma before_ofIndex (hij : i < j) (hj : j ≤ text.length) : (ofIndex text i).Before (ofIndex text j) := by
  obtain ⟨k, rfl⟩ := Nat.exists_eq_add_of_lt hij
  have hne : (text.drop i).take (k + 1) ≠ [] := by
    simp only [ne_eq, List.take_eq_nil_iff, List.drop_eq_nil_iff]
    omega
  have := before_behindText (text.take i) hne
  rwa [← List.take_add] at this

end Position

/-- The token stands for the characters number `i` to `j` of a text. Its image shows them, unless it is a directive;
the image of metadata shows them without blanks. -/
structure Token.Spans (t : Token) (text : List Char) (i j : ℕ) : Prop where
  nonempty : i ≤ j
  inside : j < text.length
  first : t.first = .ofIndex text i
  last : t.last = .ofIndex text j
  image : t.kind ≠ .directive → t.image = some (String.ofList (t.kind.imageOf ((text.drop i).take (j + 1 - i))))

lemma Token.Spans.before {t t' : Token} {i' j' : ℕ} (h : t.Spans text i j) (h' : t'.Spans text i' j')
    (hlt : j < i') : t.last.Before t'.first := by
  rw [h.last, h'.first]
  exact Position.before_ofIndex hlt (h'.nonempty.trans h'.inside.le)

structure TokenStream.IsPlacedIn (s : TokenStream) (text : List Char) : Prop where
  length_le : s.tokens.length ≤ text.length
  spans : ∀ t ∈ s.tokens, ∃ i j, t.Spans text i j
  ordered : s.tokens.Pairwise fun t t' => t.last.Before t'.first
  error : ∀ e ∈ s.error, ∃ i < text.length, e.position = .ofIndex text i ∧ ∀ t ∈ s.tokens, t.last.Before e.position

namespace Source

variable {seg : Segment} {ss : List Segment} {kind : Kind} {image : List Char} {reach : ℕ} {t : Token}

lemma IsRead.token (hl : l ∈ Language.builtin) (h : IsRead l lineStart seg behind)
    (hr : seg.role = .token kind image reach) : 0 < reach ∧ reach ≤ seg.text.length ∧
      (kind ≠ .directive → reach = seg.text.length ∧ image = kind.imageOf seg.text) := by
  obtain ⟨c, u, htext, hread⟩ := h
  cases hc : Text.isBlank c with
  | true =>
    rw [read_blank l lineStart hc] at hread
    simp only [Except.ok.injEq, Reading.mk.injEq, hr] at hread
    exact absurd hread.1 (by simp)
  | false =>
    have ha := accounts_read hl hc lineStart (u ++ behind)
    rw [hread] at ha
    obtain ⟨hpos, hle⟩ := ha.reach kind image reach hr
    refine ⟨hpos, by simpa [htext] using hle, fun hk => ?_⟩
    simpa [htext] using ha.image kind image reach hr hk

lemma places_of_token? (hlen : text.length < maxCoordinate) (htext : text = pre ++ (seg.text ++ behind))
    (hr : seg.role = .token kind image reach) (hle : reach ≤ seg.text.length)
    (ht : seg.token? file (Position.start.afterText pre) = some t) :
    t.key = ⟨kind, some (String.ofList image)⟩ ∧ t.first = .ofIndex text pre.length ∧
      t.last = .ofIndex text (pre.length + (reach - 1)) := by
  obtain ⟨role, word⟩ := seg
  obtain rfl : role = .token kind image reach := hr
  obtain rfl := Option.some.inj ht
  dsimp only at htext hle
  have htotal : text.length = pre.length + (word.length + behind.length) := by
    rw [htext, List.length_append, List.length_append]
  have htake : text.take pre.length = pre := by rw [htext, List.take_left]
  refine ⟨rfl, ?_, ?_⟩
  · rw [Position.ofIndex, htake, Position.afterText_start (by omega)]
  · have hshort : (pre ++ word.take (reach - 1)).length < maxCoordinate := by
      rw [List.length_append, List.length_take]
      omega
    change (Position.start.afterText pre).afterText (word.take (reach - 1)) = _
    rw [← Position.afterText_append, Position.afterText_start hshort, Position.ofIndex, List.take_add, htake, htext,
      List.drop_left, List.take_append_of_le_length (by omega)]

lemma spans_of_token? (hl : l ∈ Language.builtin) (hlen : text.length < maxCoordinate)
    (htext : text = pre ++ (seg.text ++ behind)) (h : IsRead l lineStart seg behind)
    (ht : seg.token? file (Position.start.afterText pre) = some t) :
    ∃ i j, t.Spans text i j ∧ pre.length ≤ i ∧ j < pre.length + seg.text.length := by
  cases hr : seg.role with
  | blank => simp [Segment.token?, hr] at ht
  | comment => simp [Segment.token?, hr] at ht
  | token kind image reach =>
    obtain ⟨hpos, hle, himage⟩ := h.token hl hr
    obtain ⟨hkey, hfirst, hlast⟩ := places_of_token? hlen htext hr hle ht
    have htotal : text.length = pre.length + (seg.text.length + behind.length) := by
      rw [htext, List.length_append, List.length_append]
    refine ⟨pre.length, pre.length + (reach - 1), ⟨by omega, by omega, hfirst, hlast, fun hk => ?_⟩, le_rfl, by omega⟩
    obtain rfl : t.kind = kind := congrArg Key.kind hkey
    obtain ⟨hreach, rfl⟩ := himage hk
    have hcount : pre.length + (reach - 1) + 1 - pre.length = seg.text.length := by omega
    rw [hcount, htext, List.drop_left, List.take_left]
    exact congrArg Key.image hkey

lemma exists_segment_of_mem {p : Position} (ht : t ∈ tokensOnto file [] p ss) : ∃ before seg following,
    ss = before ++ seg :: following ∧ seg.token? file (p.afterText (textOf before)) = some t := by
  induction ss generalizing p with
  | nil => simp [tokensOnto] at ht
  | cons seg ss ih =>
    rw [tokensOnto, tokensOnto_eq, List.append_nil, List.mem_append, List.mem_reverse, Option.mem_toList] at ht
    rcases ht with ht | ht
    · exact ⟨[], seg, ss, rfl, ht⟩
    · obtain ⟨before, seg', following, rfl, ht⟩ := ih ht
      refine ⟨seg :: before, seg', following, rfl, ?_⟩
      rwa [textOf_cons, Position.afterText_append]

lemma tokensOnto_placed (hl : l ∈ Language.builtin) (hlen : text.length < maxCoordinate) (file : ℕ)
    (htext : text = pre ++ (textOf ss ++ behind)) (h : AreRead l lineStart ss behind) :
    (tokensOnto file [] (.afterText .start pre) ss).length ≤ (textOf ss).length ∧
    (∀ t ∈ tokensOnto file [] (.afterText .start pre) ss,
      ∃ i j, t.Spans text i j ∧ pre.length ≤ i ∧ j < pre.length + (textOf ss).length) ∧
    (tokensOnto file [] (.afterText .start pre) ss).Pairwise fun t t' => t.last.Before t'.first := by
  -- The text in front grows by each segment, and the places are counted from its beginning.
  induction ss generalizing lineStart pre with
  | nil => simp [tokensOnto]
  | cons seg ss ih =>
    obtain ⟨hseg, h⟩ := h
    rw [textOf_cons, List.append_assoc] at htext
    have hshift : text = pre ++ seg.text ++ (textOf ss ++ behind) := by rw [htext, List.append_assoc]
    obtain ⟨hcount, hspans, hordered⟩ := ih hshift h
    have hfirst := fun t (ht : seg.token? file (.afterText .start pre) = some t) =>
      spans_of_token? hl hlen htext hseg ht
    rw [Position.afterText_append] at hcount hspans hordered
    rw [List.length_append] at hspans
    rw [tokensOnto, tokensOnto_eq, textOf_cons, List.length_append, List.length_append]
    cases ht : seg.token? file (.afterText .start pre) with
    | none =>
      refine ⟨by simp; omega, fun t hmem => ?_, by simpa using hordered⟩
      obtain ⟨i, j, hs, hi, hj⟩ := hspans t (by simpa using hmem)
      exact ⟨i, j, hs, by omega, by omega⟩
    | some t =>
      obtain ⟨i, j, hs, hi, hj⟩ := hfirst t ht
      have hpos : 0 < seg.text.length := by
        obtain ⟨c, u, hu, -⟩ := hseg
        simp [hu]
      refine ⟨by simp; omega, ?_, ?_⟩
      · rintro t' hmem
        simp only [Option.toList_some, List.append_nil, List.reverse_singleton, List.singleton_append,
          List.mem_cons] at hmem
        rcases hmem with rfl | hmem
        · exact ⟨i, j, hs, hi, by omega⟩
        · obtain ⟨i', j', hs', hi', hj'⟩ := hspans t' hmem
          exact ⟨i', j', hs', by omega, by omega⟩
      · refine List.pairwise_cons.mpr ⟨fun t' hmem => ?_, hordered⟩
        obtain ⟨i', j', hs', hi', -⟩ := hspans t' hmem
        exact hs.before hs' (by omega)

lemma endOf_eq (ss : List Segment) : endOf ss = .afterText .start (textOf ss) := by
  have h : ∀ p : Position, ss.foldl (fun p s => p.afterText s.text) p = p.afterText (textOf ss) := by
    induction ss with
    | nil => exact fun p => rfl
    | cons s ss ih => exact fun p => by rw [List.foldl_cons, ih, textOf_cons, Position.afterText_append]
  exact h .start

lemma isPlacedIn_stream {k : Cut} (hl : l ∈ Language.builtin) (hlen : text.length < maxCoordinate) (file : ℕ)
    (h : IsCut l lineStart text k) : (k.stream file).IsPlacedIn text := by
  obtain ⟨htext, hread, hstop⟩ := h
  have hwhole : text = [] ++ (textOf k.segments ++ k.unread) := htext.symm
  obtain ⟨hcount, hspans, hordered⟩ := tokensOnto_placed hl hlen file hwhole hread
  have htotal := congrArg List.length htext
  rw [List.length_append] at htotal
  refine ⟨hcount.trans (by omega), fun t ht => ?_, hordered, ?_⟩
  · obtain ⟨i, j, hs, -⟩ := hspans t ht
    exact ⟨i, j, hs⟩
  · rcases hstop with ⟨hnone, -⟩ | ⟨f, c, u, hsome, hunread, hfail⟩
    · simp [Cut.stream, hnone]
    · have hoffset : f.offset ≤ u.length := by
        cases hc : Text.isBlank c with
        | true => simp [read_blank l _ hc] at hfail
        | false =>
          have ha := accounts_read hl hc (flagAfter lineStart k.segments) u
          rwa [hfail] at ha
      rw [hunread, List.length_cons] at htotal
      have hlt : (textOf k.segments).length + f.offset < text.length := by omega
      have hplace : (endOf k.segments).afterText (k.unread.take f.offset) =
          .ofIndex text ((textOf k.segments).length + f.offset) := by
        rw [endOf_eq, ← Position.afterText_append, Position.ofIndex, ← htext, List.take_length_add_append,
          Position.afterText_start]
        rw [List.length_append, List.length_take, hunread, List.length_cons]
        omega
      simp only [Cut.stream, hsome, Option.map_some, Option.mem_def, Option.some.injEq, forall_eq', hplace]
      refine ⟨_, hlt, rfl, fun t ht => ?_⟩
      obtain ⟨i, j, hs, -, hj⟩ := hspans t ht
      rw [hs.last]
      exact Position.before_ofIndex (by simp at hj; omega) hlt.le

end Source

open Source

/-- Below the largest coordinate, the tokens of a source text are where their places say. -/
theorem Language.tokenize_isPlacedIn (hl : l ∈ Language.builtin) (source : String)
    (hlen : (dropByteOrderMark source.toList).length < maxCoordinate) (file : ℕ) :
    (l.tokenize source file {}).IsPlacedIn (dropByteOrderMark source.toList) := by
  have h := isPlacedIn_stream hl hlen file (isCut_cut hl _)
  rwa [Language.tokenize_default]

theorem Language.tokenize_isPlacedIn_rust :
    Language.rust ∈ Language.builtin ∧ (dropByteOrderMark "#[a b]\nf(\"x\")".toList).length < maxCoordinate ∧
      Language.rust.tokenize "#[a b]\nf(\"x\")" 0 {} = ⟨[⟨.metadata, some "#[ab]", 0, ⟨1, 1⟩, ⟨1, 6⟩⟩,
        ⟨.identifier, some "f", 0, ⟨2, 1⟩, ⟨2, 1⟩⟩, ⟨.operator, some "(", 0, ⟨2, 2⟩, ⟨2, 2⟩⟩,
        ⟨.string, some "\"x\"", 0, ⟨2, 3⟩, ⟨2, 5⟩⟩, ⟨.operator, some ")", 0, ⟨2, 6⟩, ⟨2, 6⟩⟩], none⟩ ∧
      (Language.rust.tokenize "#[a b]\nf(\"x\")" 0 {}).IsPlacedIn (dropByteOrderMark "#[a b]\nf(\"x\")".toList) :=
  ⟨by decide +kernel, by decide, by decide +kernel, tokenize_isPlacedIn (by decide +kernel) _ (by decide) 0⟩

end CodeClones
