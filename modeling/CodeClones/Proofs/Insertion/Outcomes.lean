import CodeClones.Proofs.Detection.Accesses
import CodeClones.Proofs.Insertion.Files

/-! Where files without tokens are put in among others, the same duplications are found in the others. -/

namespace CodeClones

open Corpus Duplication Success

variable {number : ℕ → ℕ} {length p : ℕ} {pre post extra pre' post' : List TokenizedFile} {x y : Occurrence}
  {dup dup' : Duplication} {r : Repeat} {outcome outcome' : Outcome} {chain : List ℕ} {hash : UInt64}

/-! ### New numbers for files -/

def Occurrence.renumbered (number : ℕ → ℕ) (x : Occurrence) : Occurrence := { x with file := number x.file }

def Duplication.renumbered (number : ℕ → ℕ) (dup : Duplication) : Duplication :=
  { dup with occurrences := dup.occurrences.map (·.renumbered number) }

def Duplication.Outcome.renumbered (number : ℕ → ℕ) : Outcome → Outcome
  | .reported duplications => .reported (duplications.map (·.renumbered number))
  | .overlapping => .overlapping
  | .contained => .contained

lemma compareLex_map {α β : Type*} {cmp : α → α → Ordering} {cmp' : β → β → Ordering} {g : α → β}
    (hg : ∀ a b, cmp' (g a) (g b) = cmp a b) (s t : List α) :
    List.compareLex cmp' (s.map g) (t.map g) = List.compareLex cmp s t := by
  induction s generalizing t with
  | nil => cases t <;> rfl
  | cons a s ih =>
    cases t with
    | nil => rfl
    | cons b t => rw [List.map_cons, List.map_cons, List.compareLex_cons_cons, List.compareLex_cons_cons, hg, ih]

section

variable (hmono : StrictMono number)

include hmono

lemma compare_number (k l : ℕ) : Ord.compare (number k) (number l) = Ord.compare k l := by
  rw [← cmp_eq_compare, ← cmp_eq_compare, hmono.cmp_map_eq]

lemma Occurrence.compare_renumbered (x y : Occurrence) :
    (x.renumbered number).compare (y.renumbered number) = x.compare y := by
  rw [Occurrence.compare, Occurrence.renumbered, Occurrence.renumbered, compare_number hmono, Occurrence.compare]

lemma Duplication.compareHeads_renumbered (s t : List Occurrence) :
    compareHeads (s.map (·.renumbered number)) (t.map (·.renumbered number)) = compareHeads s t := by
  cases s with
  | nil => cases t <;> rfl
  | cons x s =>
    cases t with
    | nil => rfl
    | cons y t =>
      rw [List.map_cons, List.map_cons, compareHeads, Occurrence.compareHeads, Occurrence.renumbered,
        Occurrence.renumbered, compare_number hmono, compareHeads, Occurrence.compareHeads]

lemma Duplication.compare_renumbered (a b : Duplication) :
    (a.renumbered number).compare (b.renumbered number) = a.compare b := by
  have hpoints : ∀ s : List Occurrence, (s.map (·.renumbered number)).map (·.startingPoint) =
      (s.map (·.startingPoint)).map fun point => (number point.1, point.2) := fun s => by
    rw [List.map_map, List.map_map]
    rfl
  simp only [Duplication.compare, Duplication.renumbered, compareHeads_renumbered hmono, hpoints]
  rw [compareLex_map fun a b => by rw [compare_number hmono]]

lemma report_renumbered (outcomes : List Outcome) :
    report (outcomes.map (·.renumbered number)) = (report outcomes).map (·.renumbered number) := by
  have hduplications : ∀ outcome : Outcome, (outcome.renumbered number).duplications =
      outcome.duplications.map (·.renumbered number) := fun outcome => by cases outcome <;> rfl
  have hle : ∀ a ∈ outcomes.flatMap (·.duplications), ∀ b ∈ outcomes.flatMap (·.duplications), (a.compare b).isLE =
      ((a.renumbered number).compare (b.renumbered number)).isLE := fun a _ b _ => by rw [compare_renumbered hmono]
  rw [report_def, report_def, List.map_mergeSort (s := fun a b => (a.compare b).isLE) hle, List.flatMap_map,
    List.map_flatMap]
  simp only [hduplications]

end

/-! ### The same chains -/

lemma fragmentOf_eq (files : List TokenizedFile) (x : Occurrence) : fragmentOf (ofFiles files) x =
    ((files.find? (·.inputIndex = x.file)).map (·.source)).elim "" fun source =>
      String.ofList (Text.lineRange source.toList x.first.line x.last.line) := by
  have hplaced : ∀ n, List.Forall₂ (fun f g => f.inputIndex = g.inputIndex ∧ f.source = g.source)
      (placeFiles n files) files := by
    induction files with
    | nil => exact fun n => .nil
    | cons f files ih => exact fun n => .cons ⟨rfl, rfl⟩ (ih _)
  have hfind := map_find?_of_forall₂ (p := (·.inputIndex = x.file)) (q := (·.inputIndex = x.file)) (hplaced 0)
    (fun f g hfg => by rw [hfg.1]) fun f g hfg => hfg.2
  rw [← hfind, fragmentOf_def]
  simp only [ofFiles, List.find?_toArray]
  cases (placeFiles 0 files).find? (·.inputIndex = x.file) <;> rfl

namespace Corpus.Widens

variable (h : Widens number pre post extra pre' post')

include h

lemma occurrenceAt_eq (hx : occurrenceAt (ofFiles (pre ++ post)) length p = .ok x)
    (hy : occurrenceAt (ofFiles (pre' ++ (extra ++ post'))) length (placeIn pre post extra p) = .ok y) :
    y = x.renumbered number := by
  obtain ⟨k, i, f, hp, hx⟩ := occurrenceAt_eq_ok hx
  obtain ⟨l, j, g, hq, hy⟩ := occurrenceAt_eq_ok hy
  obtain ⟨f', hp', hr⟩ := h.exists_liesIn hp
  obtain ⟨rfl, rfl, rfl⟩ := hq.unique hp'
  have hfirst : y.first = x.first :=
    Option.some.inj (hy.first.symm.trans ((hr.getElem?_eq (fun _ => rfl) _).trans hx.first))
  have hlast : y.last = x.last :=
    Option.some.inj (hy.last.symm.trans ((hr.getElem?_eq (fun _ => rfl) _).trans hx.last))
  cases x
  cases y
  simp only [Occurrence.renumbered, Occurrence.mk.injEq]
  exact ⟨hy.file.trans (hr.inputIndex.trans (congrArg number hx.file.symm)), hy.path.trans (hr.path.trans hx.path.symm),
    hfirst, hlast, hy.startToken.trans hx.startToken.symm⟩

lemma fragmentOf_renumbered (x : Occurrence) :
    fragmentOf (ofFiles (pre' ++ (extra ++ post'))) (x.renumbered number) = fragmentOf (ofFiles (pre ++ post)) x := by
  have hfind : ∀ {s t : List TokenizedFile}, List.Forall₂ (·.Renumbered number) s t →
      (t.find? (·.inputIndex = (x.renumbered number).file)).map (·.source) =
        (s.find? (·.inputIndex = x.file)).map (·.source) := by
    refine fun hst => (map_find?_of_forall₂ hst (fun f f' hr => ?_) fun f f' hr => hr.source.symm).symm
    rw [decide_eq_decide, hr.inputIndex]
    exact h.mono.injective.eq_iff.symm
  have hextra : extra.find? (·.inputIndex = (x.renumbered number).file) = none :=
    List.find?_eq_none.mpr fun e he hx => (h.extra e he).2 x.file (of_decide_eq_true hx).symm
  rw [fragmentOf_eq, fragmentOf_eq, List.find?_append, List.find?_append, List.find?_append, hextra, Option.none_or,
    Option.map_or, Option.map_or, hfind h.pre, hfind h.post]
  rfl

lemma ofChain_eq (hd : ofChain (ofFiles (pre ++ post)) length hash chain = .ok dup)
    (hd' : ofChain (ofFiles (pre' ++ (extra ++ post'))) length hash (chain.map (placeIn pre post extra)) = .ok dup') :
    dup' = dup.renumbered number := by
  rw [ofChain_def] at hd hd'
  obtain ⟨found, hf, hd⟩ := bind_eq_ok.mp hd
  obtain ⟨found', hf', hd'⟩ := bind_eq_ok.mp hd'
  obtain rfl := Except.ok.inj hd
  obtain rfl := Except.ok.inj hd'
  rw [List.mapM_map] at hf'
  have hfound : found' = found.map (·.renumbered number) :=
    eq_map_of_mapM hf hf' fun p _ x y hx hy => h.occurrenceAt_eq hx hy
  have hsort : (found.map (·.renumbered number)).mergeSort (fun a b => (a.compare b).isLE) =
      (found.mergeSort fun a b => (a.compare b).isLE).map (·.renumbered number) :=
    (List.map_mergeSort fun a _ b _ => by rw [Occurrence.compare_renumbered h.mono]).symm
  rw [hfound, hsort]
  simp only [Duplication.renumbered, List.head?_map, Duplication.mk.injEq, true_and]
  cases (found.mergeSort fun a b => (a.compare b).isLE).head? with
  | none => exact ⟨rfl, rfl⟩
  | some x => exact ⟨rfl, h.fragmentOf_renumbered x⟩

lemma outcomeOf_eq (hpos : 0 < r.length) (hr : r.IsMaximal (ofFiles (pre ++ post)).keys)
    (ho : outcomeOf (ofFiles (pre ++ post)) r = .ok outcome)
    (ho' : outcomeOf (ofFiles (pre' ++ (extra ++ post'))) (r.move (placeIn pre post extra)) = .ok outcome') :
    outcome' = outcome.renumbered number := by
  rw [outcomeOf_def] at ho ho'
  have hs := h.spreads
  have hmove := fun p hp => (hs.bounds_of_isMaximal hpos hr p hp).2
  obtain ⟨⟨⟩, -, ho⟩ := bind_eq_ok.mp ho
  obtain ⟨⟨⟩, -, ho'⟩ := bind_eq_ok.mp ho'
  have hpairs := hs.maximalPairs_eq hpos hr
  rw [show (r.move (placeIn pre post extra)).length = r.length from rfl, hpairs] at ho'
  generalize hp : maximalPairs (ofFiles (pre ++ post)).keys r.positions r.length = pairs at ho ho'
  cases pairs with
  | nil =>
    have hdisjoint : hasDisjoint r.length (r.move (placeIn pre post extra)).positions =
        hasDisjoint r.length r.positions := hasDisjoint_map hs.mono hmove
    rw [List.map_nil] at ho'
    dsimp only at ho ho'
    rw [hdisjoint] at ho'
    obtain rfl := Except.ok.inj ho
    obtain rfl := Except.ok.inj ho'
    cases hasDisjoint r.length r.positions <;> rfl
  | cons first others =>
    have hfirst : first.1 ∈ r.positions := (mem_maximalPairs.mp (hp ▸ List.mem_cons_self : first ∈ _)).1
    have hcover := coverPairs_map hs.mono hmove (first :: others)
    rw [List.map_cons] at ho' hcover
    dsimp only [Repeat.move, Prod.map] at ho ho' hcover
    rw [hcover, hs.extract_eq hpos hr hfirst, List.mapM_map] at ho'
    obtain ⟨found, hf, ho⟩ := bind_eq_ok.mp ho
    obtain ⟨found', hf', ho'⟩ := bind_eq_ok.mp ho'
    obtain rfl := Except.ok.inj ho
    obtain rfl := Except.ok.inj ho'
    exact congrArg _ (eq_map_of_mapM hf hf' fun chain _ dup dup' hd hd' => h.ofChain_eq hd hd')

lemma outcomes_eq {minimum : ℕ} {found : List Outcome}
    (hf : Detector.outcomes (ofFiles (pre ++ post)) minimum = .ok found) :
    Detector.outcomes (ofFiles (pre' ++ (extra ++ post'))) minimum = .ok (found.map (·.renumbered number)) := by
  obtain ⟨found', hf'⟩ := Detector.exists_outcomes (pre' ++ (extra ++ post')) minimum
  rw [hf']
  rw [Detector.outcomes_def] at hf hf'
  rw [h.spreads.all_eq, List.mapM_map] at hf'
  refine congrArg _ (eq_map_of_mapM hf hf' fun r hr outcome outcome' ho ho' => ?_)
  obtain ⟨hl, hmax⟩ := (Repeat.mem_all (SuffixIndex.build_indexes _)).mp hr
  exact h.outcomeOf_eq (by omega) hmax ho ho'

end Corpus.Widens

end CodeClones
