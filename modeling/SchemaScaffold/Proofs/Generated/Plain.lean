import SchemaScaffold.Proofs.Generated.Declarations

/-!
No declaration of a generated module is missed: the lines that a reading takes for plain open none.
Most of them open with letters of the generator's own. The others are the entries of a form, which
open with the name of a field; a colon ends the name, and no declaration reads on with one.
-/

namespace SchemaScaffold.Generated

open Naming

@[simp]
theorem all_honest_plains (texts : List String) :
    (plains texts).all Line.honest = texts.all Line.isPlain := by
  simp [plains, Line.honest, Function.comp_def]

/-- The entry of a field opens with the field's name, which a colon ends. -/
theorem isPlain_entry {name : String} (h : Field.isFieldName name = true) (value : String) :
    Line.isPlain ("      " ++ name ++ ": " ++ value) = true := by
  obtain ⟨hchars, c, rest, hc, hname⟩ := Field.isFieldName_chars h
  have hends : ∀ opening ∈ Line.openings,
      (opening.toList.dropWhile isNameChar).head?.any (· != ':') = true := by
    decide
  have hblank : c ≠ ' ' := by
    rintro rfl
    cases hc
  have htext : ("      " ++ name ++ ": " ++ value).toList.dropWhile (· == ' ') =
      name.toList ++ ':' :: ' ' :: value.toList := by
    simp [hname, hblank]
  rw [Line.isPlain, List.all_eq_true]
  intro opening hopening
  rw [htext, Bool.not_eq_true', Bool.eq_false_iff]
  intro hprefix
  obtain ⟨tail, htail⟩ := List.isPrefixOf_iff_prefix.mp hprefix
  have hafter := congrArg (List.dropWhile isNameChar) htail
  rw [List.dropWhile_append_of_pos hchars, List.dropWhile_append] at hafter
  have hend := hends opening hopening
  cases hrest : opening.toList.dropWhile isNameChar with
  | nil => simp [hrest] at hend
  | cons d after =>
    rw [hrest] at hafter
    rw [hrest, List.head?_cons, Option.any_some, bne_iff_ne] at hend
    exact hend (List.cons.inj hafter).1

section Controls

variable (field : Field)

theorem isPlain_identityLines : (identityLines field).all Line.isPlain = true := by
  simp [identityLines, Line.isPlain, Line.openings, List.isPrefixOf, toString]

theorem isPlain_defaultLines {property : String}
    (h : property ∈ ["defaultValue", "defaultChecked"]) (record : Option String) :
    (defaultLines property field record).all Line.isPlain = true := by
  cases record with
  | none => rfl
  | some record =>
    simp only [List.mem_cons, List.not_mem_nil, or_false] at h
    rcases h with rfl | rfl
    · simp [defaultLines, Line.isPlain, Line.openings, List.isPrefixOf, toString]
    · simp [defaultLines, Line.isPlain, Line.openings, List.isPrefixOf, toString]

theorem isPlain_requiredLines : (requiredLines field).all Line.isPlain = true := by
  unfold requiredLines
  split <;> decide

theorem isPlain_stepLines : (stepLines field).all Line.isPlain = true := by
  unfold stepLines
  split <;> decide

theorem isPlain_optionLine (value : String) : Line.isPlain (optionLine value) = true := by
  unfold optionLine
  generalize markupText value = text
  simp [Line.isPlain, Line.openings, List.isPrefixOf, toString]

theorem isPlain_optionLines : (optionLines field).all Line.isPlain = true := by
  have hnone : Line.isPlain "            <option value=\"\">None</option>" = true := by decide
  unfold optionLines
  cases field.nullable
  · simp [isPlain_optionLine]
  · simp [hnone, isPlain_optionLine]

theorem isPlain_controlLines (record : Option String) :
    (controlLines field record).all Line.isPlain = true := by
  generalize hlines : controlLines field record = lines
  unfold controlLines at hlines
  split at hlines
  all_goals
    rw [← hlines]
    simp only [List.all_append, isPlain_identityLines, isPlain_defaultLines, isPlain_requiredLines,
      isPlain_stepLines, isPlain_optionLines, List.mem_cons, true_or, or_true, Bool.and_true]
    simp [Line.isPlain, Line.openings, List.isPrefixOf, toString]

theorem isPlain_fieldLines (record : Option String) :
    (fieldLines record field).all Line.isPlain = true := by
  rw [fieldLines, List.all_append, List.all_append, isPlain_controlLines]
  simp [Line.isPlain, Line.openings, List.isPrefixOf, toString]

end Controls

/-! ## Modules -/

theorem honest_actionLines (m : Model) : (actionLines m).all Line.honest = true := by
  cases hreturning : m.returning
  · simp [actionLines, createdLines, updatedLines, hreturning, Line.honest, Line.isPlain,
      Line.openings, List.isPrefixOf, toString]
  · simp [actionLines, createdLines, updatedLines, hreturning, Line.honest, Line.isPlain,
      Line.openings, List.isPrefixOf, toString]

theorem honest_indexLines (m : Model) (fields : List Field) :
    (indexLines m fields).all Line.honest = true := by
  simp [indexLines, Line.honest, Line.isPlain, Line.openings, List.isPrefixOf, toString]

theorem isPlain_valueLines (m : Model) {fields : List Field}
    (hfields : ∀ field ∈ fields, Field.Accepted field) :
    (valueLines m fields).all Line.isPlain = true := by
  rw [valueLines, List.all_append, List.all_map]
  refine Bool.and_eq_true_iff.mpr ⟨List.all_eq_true.mpr fun field hfield => ?_, by decide⟩
  have hentry := isPlain_entry (hfields field hfield).name (field.formValue m.names.pascalName ++ ",")
  simpa [← String.append_assoc, toString] using hentry

theorem isPlain_controls (record : Option String) (fields : List Field) :
    (fields.flatMap (fieldLines record)).all Line.isPlain = true := by
  simp [List.all_flatMap, isPlain_fieldLines]

theorem honest_newLines (m : Model) {fields : List Field}
    (hfields : ∀ field ∈ fields, Field.Accepted field) :
    (newLines m fields).all Line.honest = true := by
  simp only [newLines, List.all_append, all_honest_plains, isPlain_valueLines m hfields,
    isPlain_controls]
  simp [Line.honest, Line.isPlain, Line.openings, List.isPrefixOf, toString]

theorem honest_foundRecordLines (m : Model) (page : String) :
    (foundRecordLines m page).all Line.honest = true := by
  simp [foundRecordLines, Line.honest, Line.isPlain, Line.openings, List.isPrefixOf, toString]

theorem honest_showLines (m : Model) (fields : List Field) :
    (showLines m fields).all Line.honest = true := by
  simp only [showLines, List.all_append, honest_foundRecordLines]
  simp [Line.honest, Line.isPlain, Line.openings, List.isPrefixOf, toString]

theorem honest_editLines (m : Model) {fields : List Field}
    (hfields : ∀ field ∈ fields, Field.Accepted field) :
    (editLines m fields).all Line.honest = true := by
  simp only [editLines, List.all_append, all_honest_plains, honest_foundRecordLines,
    isPlain_valueLines m hfields, isPlain_controls]
  simp [Line.honest, Line.isPlain, Line.openings, List.isPrefixOf, toString]

theorem isPlain_errorAnswer {indent : String} (h : indent ∈ ["    ", "      "])
    (text status : String) : (errorAnswer indent text status).all Line.isPlain = true := by
  simp only [List.mem_cons, List.not_mem_nil, or_false] at h
  rcases h with rfl | rfl
  · simp [errorAnswer, Line.isPlain, Line.openings, List.isPrefixOf, toString]
  · simp [errorAnswer, Line.isPlain, Line.openings, List.isPrefixOf, toString]

theorem honest_failedLines (handler path failure : String) (checksBody : Bool) :
    (failedLines handler path failure checksBody).all Line.honest = true := by
  simp only [failedLines, failureLines, List.all_append, all_honest_plains, List.cons_append,
    List.nil_append, List.tail_cons, List.all_cons]
  cases checksBody
  · simp [isPlain_errorAnswer, Line.honest, Line.isPlain, Line.openings, List.isPrefixOf, toString]
  · simp [isPlain_errorAnswer, Line.honest, Line.isPlain, Line.openings, List.isPrefixOf, toString]

theorem honest_collectionLines (m : Model) : (collectionLines m).all Line.honest = true := by
  simp only [collectionLines, List.all_append, honest_failedLines]
  cases hreturning : m.returning
  · simp [Line.honest, Line.isPlain, Line.openings, List.isPrefixOf, toString]
  · simp [Line.honest, Line.isPlain, Line.openings, List.isPrefixOf, toString]

theorem honest_handlerLines (m : Model) (name : String) :
    (handlerLines m name).all Line.honest = true := by
  cases huuid : m.options.uuid
  · simp [handlerLines, readIdLines, huuid, isPlain_errorAnswer, Line.honest, Line.isPlain,
      Line.openings, List.isPrefixOf]
  · simp [handlerLines, readIdLines, huuid, Line.honest, Line.isPlain, Line.openings,
      List.isPrefixOf]

theorem honest_selectedLines (m : Model) : (selectedLines m).all Line.honest = true := by
  simp [selectedLines, Line.honest, Line.isPlain, Line.openings, List.isPrefixOf, toString]

theorem isPlain_foundLines : foundLines.all Line.isPlain = true := by
  simp only [foundLines, List.all_append, isPlain_errorAnswer, List.mem_cons, true_or, or_true]
  simp [Line.isPlain, Line.openings, List.isPrefixOf]

theorem honest_memberLines (m : Model) : (memberLines m).all Line.honest = true := by
  simp only [memberLines, List.all_append, honest_failedLines, honest_handlerLines,
    honest_selectedLines, all_honest_plains, isPlain_foundLines]
  cases hreturning : m.returning
  · simp [honest_selectedLines, Line.honest, Line.isPlain, Line.openings, List.isPrefixOf, toString]
  · simp [Line.honest, Line.isPlain, Line.openings, List.isPrefixOf, toString]

/-- No line of a reading hides a declaration. -/
theorem honest_lines (m : Model) {fields : List Field}
    (hfields : ∀ field ∈ fields, Field.Accepted field) (template : Template) :
    (template.lines m fields).all Line.honest = true := by
  cases template with
  | actions => exact honest_actionLines m
  | indexPage => exact honest_indexLines m fields
  | newPage => exact honest_newLines m hfields
  | showPage => exact honest_showLines m fields
  | editPage => exact honest_editLines m hfields
  | collectionRoute => exact honest_collectionLines m
  | memberRoute => exact honest_memberLines m

end SchemaScaffold.Generated
