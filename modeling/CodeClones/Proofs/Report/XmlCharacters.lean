import Mathlib
import CodeClones.Proofs.Detection.Fragments
import CodeClones.Proofs.Report.Xml

/-! A report is a well-formed document exactly if everything that it shows of the files can stand in one. -/

namespace CodeClones.Report.Xml

open Corpus Detector Duplication

variable {c : Char} {text more : List Char} {d : Duplication} {detector : Detector} {files : List SourceFile}
  {o : Options} {result : Detection} {dup : Duplication}

def IsXmlChar (c : Char) : Prop :=
  c = '\t' ∨ c = '\n' ∨ c = '\r' ∨ (0x20 ≤ c.toNat ∧ c.toNat ≤ 0xD7FF) ∨ (0xE000 ≤ c.toNat ∧ c.toNat ≤ 0xFFFD) ∨
    (0x10000 ≤ c.toNat ∧ c.toNat ≤ 0x10FFFF)

instance (c : Char) : Decidable (IsXmlChar c) := inferInstanceAs (Decidable (_ ∨ _))

def IsXmlText (text : List Char) : Prop := ∀ c ∈ text, IsXmlChar c

instance (text : List Char) : Decidable (IsXmlText text) := List.decidableBAll _ _

structure IsWellFormed (document : String) : Prop where
  chars : IsXmlText document.toList
  reads : (readDocument document).isSome = true

def ShowsXmlText (d : Duplication) : Prop :=
  IsXmlText d.fragment.toList ∧ ∀ x ∈ d.occurrences, IsXmlText x.path.toList

/-! ### The characters of a document -/

lemma isXmlText_append : IsXmlText (text ++ more) ↔ IsXmlText text ∧ IsXmlText more := List.forall_mem_append

lemma isXmlText_flatMap {α : Type} {items : List α} {write : α → List Char} :
    IsXmlText (items.flatMap write) ↔ ∀ a ∈ items, IsXmlText (write a) := List.forall_mem_flatMap

lemma isXmlText_digits (n : ℕ) : IsXmlText (digits n) := by
  intro c hc
  have hdigit := Nat.isDigit_of_mem_toDigits (by decide) (by decide) hc
  rw [Char.isDigit, Bool.and_eq_true, decide_eq_true_eq, decide_eq_true_eq] at hdigit
  refine Or.inr (Or.inr (Or.inr (Or.inl ⟨?_, ?_⟩)))
  · exact (by decide : 0x20 ≤ 48).trans (UInt32.le_iff_toNat_le.mp hdigit.1)
  · exact (UInt32.le_iff_toNat_le.mp hdigit.2).trans (by decide)

lemma isXmlText_escape : IsXmlText (escape c) ↔ IsXmlChar c := by
  rw [escape]
  split_ifs with h1 h2 h3 h4 h5
  · exact iff_of_true (by decide) (h1 ▸ by decide)
  · exact iff_of_true (by decide) (h2 ▸ by decide)
  · exact iff_of_true (by decide) (h3 ▸ by decide)
  · exact iff_of_true (by decide) (h4 ▸ by decide)
  · exact iff_of_true (by decide) (h5 ▸ by decide)
  · exact List.forall_mem_singleton

lemma isXmlText_writeAttribute {name : String} (h : IsXmlText name.toList) :
    IsXmlText (writeAttribute name text) ↔ IsXmlText text := by
  have hopen : IsXmlText (' ' :: name.toList ++ ['=', '"']) :=
    isXmlText_append.mpr ⟨List.forall_mem_cons.mpr ⟨by decide, h⟩, by decide⟩
  have hclose : IsXmlText ['"'] := by decide
  rw [writeAttribute, isXmlText_append, isXmlText_append, isXmlText_flatMap, and_iff_left hclose, and_iff_right hopen]
  exact forall₂_congr fun c _ => isXmlText_escape

lemma isXmlText_literal : IsXmlText (literal text) ↔ IsXmlText text := by
  have hstart : IsXmlText ('<' :: '!' :: sectionStart) := by decide
  have hend : IsXmlText sectionEnd := by decide
  have hsection : ∀ s : List Char, IsXmlText (Part.verbatim s).write ↔ IsXmlText s := by
    intro s
    rw [Part.write, isXmlText_append, isXmlText_append, and_iff_left hend, and_iff_right hstart]
  rw [literal_eq, isXmlText_flatMap]
  simp only [hsection]
  rw [← isXmlText_flatMap, List.flatMap_id', flatten_sections]

lemma isXmlText_occurrence {x : Occurrence} : IsXmlText (occurrence x) ↔ IsXmlText x.path.toList := by
  have hstart : IsXmlText "      <file".toList := by decide
  have hend : IsXmlText "/>\n".toList := by decide
  unfold occurrence
  simp (disch := decide) only [isXmlText_append, isXmlText_writeAttribute, isXmlText_digits, hstart, hend, true_and,
    and_true]

lemma isXmlText_duplication : IsXmlText (duplication d) ↔ ShowsXmlText d := by
  have hstart : IsXmlText "   <duplication".toList := by decide
  have hbreak : IsXmlText ">\n".toList := by decide
  have hbefore : IsXmlText "      <codefragment>".toList := by decide
  have hbehind : IsXmlText "</codefragment>\n".toList := by decide
  have hend : IsXmlText "   </duplication>\n".toList := by decide
  unfold duplication
  simp (disch := decide) only [isXmlText_append, isXmlText_writeAttribute, isXmlText_digits, isXmlText_flatMap,
    isXmlText_occurrence, isXmlText_literal, hstart, hbreak, hbefore, hbehind, hend, true_and, and_true]
  exact and_comm

lemma isXmlText_document {r : Report} : IsXmlText (document r) ↔ ∀ d ∈ r.duplications, ShowsXmlText d := by
  have hstart : IsXmlText "<?xml version=\"1.0\" encoding=\"UTF-8\"?>\n<pmd-cpd>\n".toList := by decide
  have hend : IsXmlText "</pmd-cpd>\n".toList := by decide
  unfold document
  simp only [isXmlText_append, isXmlText_flatMap, isXmlText_duplication, hstart, hend, true_and, and_true]

lemma isWellFormed_render {r : Report} : IsWellFormed (render r) ↔ ∀ d ∈ r.duplications, ShowsXmlText d := by
  rw [← isXmlText_document]
  constructor
  · intro h
    simpa only [render, String.toList_ofList] using h.chars
  · intro h
    refine ⟨by rwa [render, String.toList_ofList], ?_⟩
    rw [readDocument_render]
    rfl

/-! ### The documents of detections -/

theorem detect_wellFormed (h : detector.detect files o = .ok result) (statistics : Option RunStatistics) :
    (IsWellFormed (render ⟨result.duplications, statistics⟩) ↔ ∀ dup ∈ result.duplications, ShowsXmlText dup) ∧
    (∀ dup ∈ result.duplications, (∃ file ∈ files, dup.fragment.toList ⊆ '\n' :: file.source.toList) ∧
      ∀ x ∈ dup.occurrences, ∃ file ∈ files, x.path = file.path) ∧
    ((∀ file ∈ files, IsXmlText file.path.toList ∧ IsXmlText file.source.toList) →
      IsWellFormed (render ⟨result.duplications, statistics⟩)) := by
  have hshown : ∀ dup ∈ result.duplications, (∃ file ∈ files, dup.fragment.toList ⊆ '\n' :: file.source.toList) ∧
      ∀ x ∈ dup.occurrences, ∃ file ∈ files, x.path = file.path := by
    intro dup hdup
    refine ⟨exists_source_of_fragment h hdup, fun x hx => ?_⟩
    obtain ⟨file, hfile, hpath, -⟩ := exists_source h hdup hx
    exact ⟨file, hfile, hpath⟩
  refine ⟨isWellFormed_render, hshown, fun hfiles => isWellFormed_render.mpr fun dup hdup => ?_⟩
  obtain ⟨⟨file, hfile, hfragment⟩, hpaths⟩ := hshown dup hdup
  constructor
  · intro c hc
    rcases List.mem_cons.mp (hfragment hc) with rfl | hc
    · decide
    · exact (hfiles file hfile).2 c hc
  · intro x hx
    obtain ⟨file, hfile, hpath⟩ := hpaths x hx
    rw [hpath]
    exact (hfiles file hfile).1

set_option maxRecDepth 20000 in
theorem detect_wellFormed_text : ∃ result,
    detect {} [⟨"a", "x x", none⟩] { minimumTokens := 1, language := "text" } = .ok result ∧
    result.duplications.length = 1 ∧ IsWellFormed (render ⟨result.duplications, none⟩) := by
  have h : ∃ result, detect {} [⟨"a", "x x", none⟩] { minimumTokens := 1, language := "text" } = .ok result ∧
      result.duplications.length = 1 := ⟨_, by cbv, rfl⟩
  obtain ⟨result, hr, hlength⟩ := h
  exact ⟨result, hr, hlength, (detect_wellFormed hr none).2.2 (by decide)⟩

set_option maxRecDepth 20000 in
/-- A form feed is a blank of a source and no character of a document. -/
theorem formFeed_stays : ∃ result,
    detect {} [⟨"a", "x\x0cx", none⟩] { minimumTokens := 1, language := "java" } = .ok result ∧
    '\x00' ∉ "a".toList ∧ '\x00' ∉ "x\x0cx".toList ∧ ¬ IsXmlText (render ⟨result.duplications, none⟩).toList := by
  have h : ∃ result, ∃ dup ∈ result.duplications,
      detect {} [⟨"a", "x\x0cx", none⟩] { minimumTokens := 1, language := "java" } = .ok result ∧
      dup.fragment = "x\x0cx" := ⟨_, _, List.mem_cons_self, by cbv, rfl⟩
  obtain ⟨result, dup, hdup, hr, hshown⟩ := h
  refine ⟨result, hr, by decide, by decide, ?_⟩
  rw [render, String.toList_ofList, isXmlText_document]
  intro hall
  have hfragment := (hall dup hdup).1
  rw [hshown] at hfragment
  exact absurd hfragment (by decide)

end CodeClones.Report.Xml
