import CodeClones.Proofs.Report.Readers
import CodeClones.Report.Csv

/-! Reports as tables can be read back: no field ends early, whatever it holds, and no row does. -/

namespace CodeClones.Report.Csv

open Reader

variable {f : List Char} {fields : List (List Char)} {rest : List Char}

def isPlain (c : Char) : Bool := c ≠ ',' && c ≠ '"' && c ≠ '\n' && c ≠ '\r'

def readQuoted : Reader (List Char)
  | '"' :: '"' :: text => (readQuoted text).map fun (field, rest) => ('"' :: field, rest)
  | '"' :: text => some ([], text)
  | c :: text => (readQuoted text).map fun (field, rest) => (c :: field, rest)
  | [] => none

def readField : Reader (List Char)
  | '"' :: text => readQuoted text
  | text => some (text.takeWhile isPlain, text.dropWhile isPlain)

/-- A line feed, with or without a carriage return in front of it. The last row may lack it. -/
def readRowEnd : Reader Unit
  | '\n' :: text => some ((), text)
  | '\r' :: '\n' :: text => some ((), text)
  | [] => some ((), [])
  | _ => none

def readRow : Reader (List (List Char)) := do
  let first ← readField
  let others ← many (do exactly [',']; readField)
  readRowEnd
  return first :: others

def readTable (text : String) : Option (List (List String)) :=
  match many readRow text.toList with
  | some (rows, []) => some (rows.map fun fields => fields.map String.ofList)
  | _ => none

def EndsField (text : List Char) : Prop := ∃ c following, text = c :: following ∧ (c = ',' ∨ c = '\n')

lemma readQuoted_doubled (h : rest.head? ≠ some '"') :
    readQuoted (f.flatMap (fun c => if c = '"' then ['"', '"'] else [c]) ++ '"' :: rest) = some (f, rest) := by
  induction f with
  | nil =>
    cases rest with
    | nil => rfl
    | cons c rest => simp_all [readQuoted]
  | cons c f ih =>
    rw [List.flatMap_cons, List.append_assoc]
    split
    · next hc =>
      rw [List.cons_append, List.singleton_append, readQuoted, ih, hc]
      rfl
    · next hc =>
      rw [List.singleton_append, readQuoted, ih]
      · rfl
      · exact fun _ h => absurd h hc
      · exact fun h => absurd h hc

lemma readField_writeField (h : EndsField rest) : readField (writeField f ++ rest) = some (f, rest) := by
  obtain ⟨c, following, rfl, hc⟩ := h
  rw [writeField]
  split
  · next hq =>
    rw [List.append_assoc, List.cons_append, List.singleton_append, readField]
    apply readQuoted_doubled
    rcases hc with rfl | rfl <;> simp
  · next hq =>
    have hplain : ∀ x ∈ f, isPlain x = true := by
      intro x hx
      have hx : ¬ _ := fun h => hq (List.any_eq_true.mpr ⟨x, hx, h⟩)
      simpa [isPlain, and_assoc] using hx
    have hstop : isPlain c = false := by
      rcases hc with rfl | rfl <;> rfl
    rw [readField, List.takeWhile_append_of_pos hplain, List.dropWhile_append_of_pos hplain]
    · simp [hstop]
    · intro text h
      cases f with
      | nil =>
        obtain ⟨rfl, -⟩ := List.cons.inj h
        simp at hc
      | cons x f =>
        obtain ⟨rfl, -⟩ := List.cons.inj h
        exact absurd (hplain _ List.mem_cons_self) (by decide)

lemma writeRow_cons (f : List Char) (fields : List (List Char)) :
    writeRow (f :: fields) = writeField f ++ (fields.flatMap (fun f => ',' :: writeField f) ++ ['\n']) := by
  rw [writeRow, List.map_cons, ← List.append_assoc]
  congr 1
  induction fields generalizing f with
  | nil => simp
  | cons g fields ih =>
    rw [List.map_cons, List.intercalate_cons_cons, ih]
    simp

lemma readRow_writeRow (h : fields ≠ []) (rest : List Char) :
    readRow (writeRow fields ++ rest) = some (fields, rest) := by
  obtain ⟨f, others, rfl⟩ := List.exists_cons_of_ne_nil h
  have hothers : many (do exactly [',']; readField) (others.flatMap (fun f => ',' :: writeField f) ++ '\n' :: rest) =
      some (others, '\n' :: rest) := by
    apply many_flatMap EndsField
    · intro f _ rest hrest
      rw [List.cons_append]
      exact (bind_eq (exactly_append [','] _)).trans (readField_writeField hrest)
    · exact fun f _ => List.cons_ne_nil _ _
    · exact fun f _ rest => ⟨',', writeField f ++ rest, rfl, Or.inl rfl⟩
    · exact ⟨'\n', rest, rfl, Or.inr rfl⟩
    · exact many_of_eq_none rfl
  have hends : EndsField (others.flatMap (fun f => ',' :: writeField f) ++ '\n' :: rest) := by
    cases others with
    | nil => exact ⟨'\n', rest, rfl, Or.inr rfl⟩
    | cons g others => exact ⟨',', _, rfl, Or.inl rfl⟩
  rw [writeRow_cons, List.append_assoc, List.append_assoc, List.singleton_append, readRow,
    bind_eq (readField_writeField hends), bind_eq hothers]
  rfl

lemma ne_nil_of_mem_rows {r : Report} (h : fields ∈ rows r) : fields ≠ [] := by
  rcases List.mem_cons.mp h with rfl | h
  · exact List.cons_ne_nil _ _
  · obtain ⟨d, -, rfl⟩ := List.mem_map.mp h
    exact List.cons_ne_nil _ _

lemma many_rows (r : Report) : many readRow ((rows r).flatMap writeRow) = some (rows r, []) := by
  rw [← List.append_nil ((rows r).flatMap writeRow)]
  apply many_flatMap (fun _ => True)
  · exact fun fields h rest _ => readRow_writeRow (ne_nil_of_mem_rows h) rest
  · intro fields h
    simp [writeRow]
  · exact fun _ _ _ => trivial
  · trivial
  · exact many_nil readRow

theorem readTable_render (r : Report) : readTable (render r) =
    some (["lines", "tokens", "occurrences"] :: r.duplications.map fun d =>
      [toString d.lines, toString d.tokens, toString d.occurrences.length] ++
        d.occurrences.flatMap fun o => [toString o.first.line, o.path]) := by
  rw [readTable, render, String.toList_ofList, many_rows]
  simp [rows, header, fields, ofList_digits, List.map_flatMap]

end CodeClones.Report.Csv
