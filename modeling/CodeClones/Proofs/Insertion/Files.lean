import CodeClones.Proofs.Corpus.Alike
import CodeClones.Proofs.Duplication.Placement
import CodeClones.Proofs.Insertion.Chains

/-! Files without tokens among others: they only add sentinels, so that the keys of the others move. -/

namespace CodeClones

open Corpus Success

variable {start room k l i p length : ℕ} {number : ℕ → ℕ} {f f' : TokenizedFile}
  {files pre post extra pre' post' : List TokenizedFile}

/-- From `start` on, numbers make room for others. -/
def makeRoom (start room n : ℕ) : ℕ := if n < start then n else n + room

lemma makeRoom_of_lt (h : k < start) : makeRoom start room k = k := if_pos h

lemma makeRoom_of_le (h : start ≤ k) : makeRoom start room k = k + room := if_neg h.not_gt

lemma strictMono_makeRoom (start room : ℕ) : StrictMono (makeRoom start room) := by
  intro k l h
  rw [makeRoom, makeRoom]
  split <;> split <;> omega

def Token.unnumbered (t : Token) : Token := { t with file := 0 }

structure TokenizedFile.Renumbered (number : ℕ → ℕ) (f f' : TokenizedFile) : Prop where
  path : f'.path = f.path
  source : f'.source = f.source
  inputIndex : f'.inputIndex = number f.inputIndex
  tokens : f'.tokens.map (·.unnumbered) = f.tokens.map (·.unnumbered)

namespace TokenizedFile.Renumbered

variable {α : Type*} {g : Token → α}

lemma map_eq (h : f.Renumbered number f') (hg : ∀ t, g t.unnumbered = g t) : f'.tokens.map g = f.tokens.map g := by
  have hmap : ∀ tokens : List Token, tokens.map g = (tokens.map (·.unnumbered)).map g := fun tokens => by
    rw [List.map_map]
    exact List.map_congr_left fun t _ => (hg t).symm
  rw [hmap, h.tokens, ← hmap]

lemma length_eq (h : f.Renumbered number f') : f'.tokens.length = f.tokens.length := by
  simpa using congrArg List.length h.tokens

lemma getElem?_eq (h : f.Renumbered number f') (hg : ∀ t, g t.unnumbered = g t) (i : ℕ) :
    f'.tokens[i]?.map g = f.tokens[i]?.map g := by
  rw [← List.getElem?_map, h.map_eq hg, List.getElem?_map]

end TokenizedFile.Renumbered

namespace Corpus

/-- Files without tokens, `extra`, are put in among others, which get new numbers. -/
structure Widens (number : ℕ → ℕ) (pre post extra pre' post' : List TokenizedFile) : Prop where
  mono : StrictMono number
  pre : List.Forall₂ (·.Renumbered number) pre pre'
  post : List.Forall₂ (·.Renumbered number) post post'
  extra : ∀ e ∈ extra, e.tokens = [] ∧ ∀ n, number n ≠ e.inputIndex

def placeIn (pre post extra : List TokenizedFile) : ℕ → ℕ := makeRoom (startOf (pre ++ post) pre.length) extra.length

lemma startOf_append (pre post : List TokenizedFile) (k : ℕ) :
    startOf (pre ++ post) (pre.length + k) = startOf pre pre.length + startOf post k := by
  rw [startOf, List.take_length_add_append, List.map_append, List.sum_append, startOf, List.take_length, startOf]

lemma startOf_append_of_le (h : k ≤ pre.length) : startOf (pre ++ post) k = startOf pre k := by
  rw [startOf, List.take_append_of_le_length h, startOf]

lemma startOf_of_empty (h : ∀ e ∈ extra, e.tokens = []) : startOf extra extra.length = extra.length := by
  rw [startOf, List.take_length]
  induction extra with
  | nil => rfl
  | cons e extra ih =>
    obtain ⟨he, hextra⟩ := List.forall_mem_cons.mp h
    rw [List.map_cons, List.sum_cons, ih hextra, he, List.length_cons]
    simp [Nat.add_comm]

lemma isSingle_sentinel (hf : files[k]? = some f) :
    IsSingle (ofFiles files).keys (startOf files k + f.tokens.length) := fun _ hq => sentinel_unique hf hq

namespace Widens

variable (h : Widens number pre post extra pre' post')

include h

lemma exists_file (hf : (pre ++ post)[k]? = some f) :
    ∃ f', (pre' ++ (extra ++ post'))[makeRoom pre.length extra.length k]? = some f' ∧ f.Renumbered number f' := by
  have hlength := h.pre.length_eq
  rcases Nat.lt_or_ge k pre.length with hk | hk
  · rw [List.getElem?_append_left hk] at hf
    obtain ⟨f', hf', hr⟩ := exists_getElem?_of_forall₂ h.pre hf
    refine ⟨f', ?_, hr⟩
    rw [makeRoom_of_lt hk, List.getElem?_append_left (by omega), hf']
  · rw [List.getElem?_append_right hk] at hf
    obtain ⟨f', hf', hr⟩ := exists_getElem?_of_forall₂ h.post hf
    refine ⟨f', ?_, hr⟩
    rw [makeRoom_of_le hk, List.getElem?_append_right (by omega), List.getElem?_append_right (by omega), ← hf']
    congr 1
    omega

lemma empty_or_exists_file (hf : (pre' ++ (extra ++ post'))[l]? = some f') :
    f'.tokens = [] ∨ ∃ k f, l = makeRoom pre.length extra.length k ∧ (pre ++ post)[k]? = some f := by
  have hlength := h.pre.length_eq
  rcases Nat.lt_or_ge l pre'.length with hl | hl
  · have hk : l < pre.length := by omega
    exact .inr ⟨l, pre[l], (makeRoom_of_lt hk).symm, by rw [List.getElem?_append_left hk, List.getElem?_eq_getElem hk]⟩
  · rw [List.getElem?_append_right hl] at hf
    rcases Nat.lt_or_ge (l - pre'.length) extra.length with hx | hx
    · rw [List.getElem?_append_left hx] at hf
      exact .inl (h.extra f' (List.mem_of_getElem? hf)).1
    · rw [List.getElem?_append_right hx] at hf
      have hk := (List.getElem?_eq_some_iff.mp hf).1
      rw [← h.post.length_eq] at hk
      refine .inr ⟨pre.length + (l - pre'.length - extra.length), post[l - pre'.length - extra.length], ?_, ?_⟩
      · rw [makeRoom_of_le (Nat.le_add_right _ _)]
        omega
      · rw [List.getElem?_append_right (Nat.le_add_right _ _), Nat.add_sub_cancel_left, List.getElem?_eq_getElem hk]

lemma startOf_makeRoom (hf : (pre ++ post)[k]? = some f) :
    startOf (pre' ++ (extra ++ post')) (makeRoom pre.length extra.length k) =
      placeIn pre post extra (startOf (pre ++ post) k) := by
  have hpre := fun k => startOf_congr (fun _ _ hr => hr.length_eq.symm) h.pre k
  have hpost := fun k => startOf_congr (fun _ _ hr => hr.length_eq.symm) h.post k
  have hextra := startOf_of_empty fun e he => (h.extra e he).1
  have hlength := h.pre.length_eq
  rcases Nat.lt_or_ge k pre.length with hk | hk
  · have hlt := startOf_add_lt hf hk
    rw [makeRoom_of_lt hk, placeIn, makeRoom_of_lt (by omega), startOf_append_of_le (by omega),
      startOf_append_of_le (by omega), hpre]
  · obtain ⟨k, rfl⟩ := Nat.exists_eq_add_of_le hk
    rw [makeRoom_of_le hk, placeIn, makeRoom_of_le (startOf_mono hk), hlength, Nat.add_assoc, startOf_append,
      Nat.add_comm k, startOf_append, ← hlength, startOf_append, hextra, hpre, hpost, hlength]
    omega

lemma placeIn_add (hf : (pre ++ post)[k]? = some f) (hi : i ≤ f.tokens.length) :
    placeIn pre post extra (startOf (pre ++ post) k + i) =
      startOf (pre' ++ (extra ++ post')) (makeRoom pre.length extra.length k) + i := by
  rw [h.startOf_makeRoom hf]
  rcases Nat.lt_or_ge k pre.length with hk | hk
  · have hlt := startOf_add_lt hf hk
    rw [placeIn, makeRoom_of_lt (by omega), makeRoom_of_lt (by omega)]
  · have hle : startOf (pre ++ post) pre.length ≤ startOf (pre ++ post) k := startOf_mono hk
    rw [placeIn, makeRoom_of_le (by omega), makeRoom_of_le hle]
    omega

lemma numberingOf_eq : numberingOf (pre' ++ (extra ++ post')) = numberingOf (pre ++ post) := by
  have hkeys : ∀ {s t : List TokenizedFile}, List.Forall₂ (·.Renumbered number) s t →
      t.map (fun f => f.tokens.map (·.key)) = s.map fun f => f.tokens.map (·.key) := fun hst =>
    (map_eq_of_forall₂ hst fun f f' hr => (hr.map_eq fun _ => rfl).symm).symm
  have hextra : (extra.map fun f => f.tokens.map (·.key)).flatten = [] := by
    refine List.flatten_eq_nil_iff.mpr fun keys hk => ?_
    obtain ⟨e, he, rfl⟩ := List.mem_map.mp hk
    rw [(h.extra e he).1, List.map_nil]
  rw [Corpus.numberingOf_eq, Corpus.numberingOf_eq]
  simp only [List.map_append, List.flatten_append, hextra, hkeys h.pre, hkeys h.post, List.nil_append]

lemma exists_liesIn (hp : LiesIn (pre ++ post) length p k i f) :
    ∃ f', LiesIn (pre' ++ (extra ++ post')) length (placeIn pre post extra p)
      (makeRoom pre.length extra.length k) i f' ∧ f.Renumbered number f' := by
  obtain ⟨f', hf', hr⟩ := h.exists_file hp.file
  have hroom := hp.room
  refine ⟨f', ⟨hf', ?_, hr.length_eq.symm ▸ hroom⟩, hr⟩
  rw [hp.position, h.placeIn_add hp.file (by omega)]

lemma spreads :
    Spreads (ofFiles (pre ++ post)).keys (ofFiles (pre' ++ (extra ++ post'))).keys (placeIn pre post extra) where
  mono := strictMono_makeRoom _ _
  lt p hp := by
    obtain ⟨k, f, i, hf, hi, rfl⟩ := exists_place_of_lt hp
    obtain ⟨f', hf', hr⟩ := h.exists_file hf
    rw [h.placeIn_add hf hi]
    exact add_lt_size hf' (hr.length_eq.symm ▸ hi)
  key p hp := by
    obtain ⟨k, f, i, hf, hi, rfl⟩ := exists_place_of_lt hp
    obtain ⟨f', hf', hr⟩ := h.exists_file hf
    rw [h.placeIn_add hf hi]
    rcases Nat.lt_or_eq_of_le hi with hlt | rfl
    · refine .inr ?_
      have ht := List.getElem?_eq_getElem hlt
      have hkey := hr.getElem?_eq (g := (·.key)) (fun _ => rfl) i
      obtain ⟨t', ht', hkey⟩ := Option.map_eq_some_iff.mp (hkey.trans (congrArg (Option.map (·.key)) ht))
      rw [key_of_token hf ht, key_of_token hf' ht', h.numberingOf_eq, hkey]
    · refine .inl ⟨isSingle_sentinel hf, ?_⟩
      rw [← hr.length_eq]
      exact isSingle_sentinel hf'
  next p hp := by
    obtain ⟨k, f, i, hf, hi, rfl⟩ := exists_place_of_lt hp
    rcases Nat.lt_or_eq_of_le hi with hlt | rfl
    · exact .inr (by rw [Nat.add_assoc, h.placeIn_add hf hi, h.placeIn_add hf hlt, Nat.add_assoc])
    · exact .inl (isSingle_sentinel hf)
  new q hq := by
    obtain ⟨l, f', i, hf', hi, rfl⟩ := exists_place_of_lt hq
    rcases h.empty_or_exists_file hf' with hnil | ⟨k, f, rfl, hf⟩
    · obtain rfl : i = f'.tokens.length := by
        rw [hnil] at hi ⊢
        exact Nat.le_zero.mp hi
      exact .inl (isSingle_sentinel hf')
    · obtain ⟨f'', hf'', hr⟩ := h.exists_file hf
      obtain rfl := Option.some.inj (hf'.symm.trans hf'')
      rw [hr.length_eq] at hi
      exact .inr ⟨_, add_lt_size hf hi, h.placeIn_add hf hi⟩

lemma sum_length_eq : ((pre' ++ (extra ++ post')).map (·.tokens.length)).sum =
    ((pre ++ post).map (·.tokens.length)).sum := by
  have hsum : ∀ {s t : List TokenizedFile}, List.Forall₂ (·.Renumbered number) s t →
      t.map (·.tokens.length) = s.map (·.tokens.length) := fun hst =>
    (map_eq_of_forall₂ hst fun f f' hr => hr.length_eq.symm).symm
  have hextra : extra.map (·.tokens.length) = extra.map fun _ => 0 :=
    List.map_congr_left fun e he => by rw [(h.extra e he).1, List.length_nil]
  simp [hextra, hsum h.pre, hsum h.post]

end Widens

end Corpus

end CodeClones
