import Mathlib.Data.List.Dedup
import SchemaScaffold.Proofs.Generated.Controls

/-!
What a form submits, as it is read from the code of a page. The reading seeks the call of an action and
takes the first braces behind it for the object that is passed. An entry of the object is a key up to a
colon, and a value up to a comma that no bracket encloses; a name is read from the form where it stands
in a literal behind the bracket of `formData.get`. However the value of a field is converted, its entry
reads the field's name and nothing else.
-/

namespace SchemaScaffold.Generated.Submission

open Naming

/-! ## Reading an object -/

/-- The characters of a word of code: an identifier, or several with dots between. -/
def isWordChar (c : Char) : Bool := c.isAlphanum || c == '_' || c == '$' || c == '.'

/-- What reads a submitted form. -/
def reader : List Char := "formData.get".toList

/-- Where a reading of code stands. -/
inductive Place
  /-- In front of the call, behind a part of a word. -/
  | seeking (word : List Char)
  /-- Behind the bracket of the call. -/
  | passing
  | key (key : List Char)
  /-- In a value: its key, the words in front of the brackets that are open, the word that the reading
  is behind, and the names that are read so far. -/
  | value (key : List Char) (calls : List (List Char)) (word : List Char) (names : List String)
  | literal (key : List Char) (calls : List (List Char)) (text : List Char) (names : List String)
  | closed

structure Reading where
  place : Place
  /-- The entries before, with the names that their values read. -/
  entries : List (String × List String)

def stepValue (key : List Char) (calls : List (List Char)) (word : List Char) (names : List String)
    (r : Reading) (c : Char) : Reading :=
  if c == '"' then { r with place := .literal key calls [] names }
  else if c == '(' || c == '[' || c == '{' then { r with place := .value key (word :: calls) [] names }
  else if c == ')' || c == ']' || c == '}' then
    match calls with
    | _ :: calls => { r with place := .value key calls [] names }
    | [] => { place := .closed, entries := r.entries ++ [(String.ofList key, names)] }
  else if c == ',' && calls.isEmpty then
    { place := .key [], entries := r.entries ++ [(String.ofList key, names)] }
  else { r with place := .value key calls (if isWordChar c then word ++ [c] else []) names }

def step (callee : List Char) (r : Reading) (c : Char) : Reading :=
  match r.place with
  | .seeking word =>
    if isWordChar c then { r with place := .seeking (word ++ [c]) }
    else { r with place := if c == '(' && word == callee then .passing else .seeking [] }
  | .passing => if c == '{' then { r with place := .key [] } else r
  | .key key =>
    if c == ':' then { r with place := .value key [] [] [] }
    -- an entry without a value reads nothing
    else if c == ',' || c == '}' then
      { place := if c == ',' then .key [] else .closed
        entries := if key.isEmpty then r.entries else r.entries ++ [(String.ofList key, [])] }
    else if key.isEmpty && Text.isBlank c then r
    else { r with place := .key (key ++ [c]) }
  | .value key calls word names => stepValue key calls word names r c
  | .literal key calls text names =>
    if c == '"' then
      { r with
        place := .value key calls []
          (if calls.head? == some reader then names ++ [String.ofList text] else names) }
    else { r with place := .literal key calls (text ++ [c]) names }
  | .closed => r

/-- The entries of the object that a text passes to a function, in their order: each key, and the
different names that its value reads from the form. -/
def submitted (callee text : String) : List (String × List String) :=
  (text.toList.foldl (step callee.toList) { place := .seeking [], entries := [] }).entries.map
    fun entry => (entry.1, entry.2.dedup)

variable {callee cs : List Char} {entries : List (String × List String)}

/-! ## Words and literals -/

/-- A character that means nothing to the reading of a value but the end of a word. -/
def isPlain (c : Char) : Bool := !(['"', '(', '[', '{', ')', ']', '}', ','].contains c)

theorem isPlain_of_isWordChar {c : Char} (hc : isWordChar c = true) : isPlain c = true := by
  have hnone : ['"', '(', '[', '{', ')', ']', '}', ','].all (fun d => !isWordChar d) = true := by decide
  simp only [isPlain, Bool.not_eq_true', List.contains_eq_mem, decide_eq_false_iff_not]
  intro hmem
  have hnot := List.all_eq_true.mp hnone c hmem
  rw [hc] at hnot
  cases hnot

theorem step_plain {c : Char} (hc : isPlain c = true) (key : List Char) (calls : List (List Char))
    (word : List Char) (names : List String) : step callee ⟨.value key calls word names, entries⟩ c =
      ⟨.value key calls (if isWordChar c then word ++ [c] else []) names, entries⟩ := by
  have hne : c ≠ '"' ∧ c ≠ '(' ∧ c ≠ '[' ∧ c ≠ '{' ∧ c ≠ ')' ∧ c ≠ ']' ∧ c ≠ '}' ∧ c ≠ ',' := by
    simpa [isPlain] using hc
  simp [step, stepValue, hne]

theorem read_word {w : List Char} (hw : ∀ c ∈ w, isWordChar c = true) (key : List Char)
    (calls : List (List Char)) (word : List Char) (names : List String) :
    w.foldl (step callee) ⟨.value key calls word names, entries⟩ =
      ⟨.value key calls (word ++ w) names, entries⟩ := by
  refine collects (fun word => Reading.mk (.value key calls word names) entries) (fun word c hc => ?_) word
  rw [step_plain (isPlain_of_isWordChar (hw c hc)), if_pos (hw c hc)]

theorem read_literal (h : '"' ∉ cs) (key : List Char) (calls : List (List Char)) (text : List Char)
    (names : List String) : cs.foldl (step callee) ⟨.literal key calls text names, entries⟩ =
      ⟨.literal key calls (text ++ cs) names, entries⟩ := by
  refine collects (fun text => Reading.mk (.literal key calls text names) entries) (fun text c hc => ?_) text
  exact if_neg (by simpa using fun he : c = '"' => h (he ▸ hc))

/-- A literal is a name that is read from the form if the bracket in front of it says so. -/
theorem read_quoted {name : String} (h : '"' ∉ name.toList) (key : List Char) (calls : List (List Char))
    (names : List String) :
    ('"' :: name.toList ++ ['"']).foldl (step callee) ⟨.value key calls [] names, entries⟩ =
      ⟨.value key calls [] (if calls.head? == some reader then names ++ [name] else names), entries⟩ := by
  have hopened : step callee ⟨.value key calls [] names, entries⟩ '"' =
      ⟨.literal key calls [] names, entries⟩ := rfl
  have hclosed : step callee ⟨.literal key calls name.toList names, entries⟩ '"' =
      ⟨.value key calls [] (if calls.head? == some reader then names ++ [name] else names), entries⟩ := by
    rw [← String.ofList_toList (s := name), String.toList_ofList]
    rfl
  rw [List.foldl_append, List.foldl_cons, List.foldl_nil, List.foldl_cons, hopened, read_literal h,
    List.nil_append, hclosed]

/-! ## Values -/

/-- A piece of a value, with the names that it reads from the form. -/
def Reads (callee : List Char) (given : List String) (cs : List Char) : Prop :=
  ∀ key calls names entries, calls.head? ≠ some reader → ∃ word,
    cs.foldl (step callee) ⟨.value key calls [] names, entries⟩ =
      ⟨.value key calls word (names ++ given), entries⟩

theorem reads_plain (h : cs.all isPlain = true) : Reads callee [] cs := by
  intro key calls names entries _
  rw [List.append_nil]
  refine stays (fun word => Reading.mk (.value key calls word names) entries) (fun word c hc => ?_) []
  exact ⟨_, step_plain (List.all_eq_true.mp h c hc) key calls word names⟩

theorem reads_quoted {name : String} (h : '"' ∉ name.toList) :
    Reads callee [] ('"' :: name.toList ++ ['"']) := by
  intro key calls names entries hcalls
  exact ⟨[], by rw [read_quoted h, if_neg (by simpa using hcalls), List.append_nil]⟩

theorem Reads.spaced {a b : List Char} {xs ys : List String} (ha : Reads callee xs a)
    (hb : Reads callee ys b) : Reads callee (xs ++ ys) (a ++ ' ' :: b) := by
  intro key calls names entries hcalls
  obtain ⟨word, ha⟩ := ha key calls names entries hcalls
  obtain ⟨word', hb⟩ := hb key calls (names ++ xs) entries hcalls
  refine ⟨word', ?_⟩
  rw [List.foldl_append, List.foldl_cons, ha, step_plain (by decide), if_neg (by decide), hb,
    List.append_assoc]

/-- Brackets remember the word in front of them, and give the names behind it on. -/
theorem read_brackets {w a : List Char} {xs : List String} {o c : Char} {key : List Char}
    {calls : List (List Char)} {names : List String} (hbrackets : (o, c) ∈ [('(', ')'), ('[', ']')])
    (hw : ∀ c ∈ w, isWordChar c = true)
    (ha : ∃ word, a.foldl (step callee) ⟨.value key (w :: calls) [] names, entries⟩ =
      ⟨.value key (w :: calls) word (names ++ xs), entries⟩) :
    (w ++ o :: (a ++ [c])).foldl (step callee) ⟨.value key calls [] names, entries⟩ =
      ⟨.value key calls [] (names ++ xs), entries⟩ := by
  obtain ⟨word, ha⟩ := ha
  simp only [List.mem_cons, Prod.mk.injEq, List.not_mem_nil, or_false] at hbrackets
  have hopened : step callee ⟨.value key calls w names, entries⟩ o =
      ⟨.value key (w :: calls) [] names, entries⟩ := by
    rcases hbrackets with ⟨rfl, rfl⟩ | ⟨rfl, rfl⟩ <;> rfl
  have hclosed : step callee ⟨.value key (w :: calls) word (names ++ xs), entries⟩ c =
      ⟨.value key calls [] (names ++ xs), entries⟩ := by
    rcases hbrackets with ⟨rfl, rfl⟩ | ⟨rfl, rfl⟩ <;> rfl
  rw [List.foldl_append, read_word hw, List.nil_append, List.foldl_cons, hopened, List.foldl_append, ha,
    List.foldl_cons, hclosed, List.foldl_nil]

/-- What stands in brackets is read as without them, unless the word in front of them reads the form. -/
theorem Reads.enclosed {w a : List Char} {xs : List String} (ha : Reads callee xs a)
    (hw : ∀ c ∈ w, isWordChar c = true) (hne : w ≠ reader) {o c : Char}
    (hbrackets : (o, c) ∈ [('(', ')'), ('[', ']')]) : Reads callee xs (w ++ o :: (a ++ [c])) :=
  fun key calls names entries _ =>
    ⟨[], read_brackets hbrackets hw (ha key (w :: calls) names entries (by simpa using hne))⟩

/-- The code that reads a name from the form. -/
theorem reads_name {name : String} (h : '"' ∉ name.toList) :
    Reads callee [name] ("formData.get(\"" ++ name ++ "\")").toList := by
  intro key calls names entries _
  have htext : ("formData.get(\"" ++ name ++ "\")").toList =
      reader ++ '(' :: (('"' :: name.toList ++ ['"']) ++ [')']) := by
    have hfront : "formData.get(\"".toList = reader ++ ['(', '"'] := by decide
    have hback : "\")".toList = ['"', ')'] := by decide
    simp only [String.toList_append, hfront, hback, List.append_assoc, List.cons_append, List.nil_append]
  have hword : ∀ c ∈ reader, isWordChar c = true := List.all_eq_true.mp (by decide)
  have hquoted : ('"' :: name.toList ++ ['"']).foldl (step callee)
      ⟨.value key (reader :: calls) [] names, entries⟩ =
      ⟨.value key (reader :: calls) [] (names ++ [name]), entries⟩ := by
    rw [read_quoted h, if_pos (by simp)]
  rw [htext]
  exact ⟨[], read_brackets (by simp) hword ⟨[], hquoted⟩⟩

/-! ## The entry of a field -/

section Entries

variable {name pascalName : String}

/-- A value that is converted only if something was submitted reads its name once or twice. -/
theorem reads_whenGiven {raw converted : String} (nullable : Bool) (hraw : Reads callee [name] raw.toList)
    (hconverted : Reads callee [name] converted.toList) : ∃ given, Reads callee given
      (if nullable then raw ++ " ? " ++ converted ++ " : null" else converted).toList ∧
        given.dedup = [name] := by
  cases nullable with
  | false => exact ⟨_, hconverted, by simp⟩
  | true =>
    have hmark : Reads callee [] ['?'] := reads_plain (by decide)
    have hnull : Reads callee [] ": null".toList := reads_plain (by decide)
    have htext : (raw ++ " ? " ++ converted ++ " : null").toList =
        raw.toList ++ ' ' :: (['?'] ++ ' ' :: (converted.toList ++ ' ' :: ": null".toList)) := by
      simp [String.toList_append]
    refine ⟨[name] ++ ([] ++ ([name] ++ [])), ?_, by simp⟩
    rw [if_pos rfl, htext]
    exact hraw.spaced (hmark.spaced (hconverted.spaced hnull))

theorem reads_orNull {value : String} (nullable : Bool) (hvalue : Reads callee [name] value.toList) :
    ∃ given, Reads callee given (if nullable then "(" ++ value ++ ") || null" else value).toList ∧
      given.dedup = [name] := by
  cases nullable with
  | false => exact ⟨_, hvalue, by simp⟩
  | true =>
    have henclosed : Reads callee [name] ([] ++ '(' :: (value.toList ++ [')'])) :=
      hvalue.enclosed (by simp) (by decide) (by simp)
    have hnull : Reads callee [] "|| null".toList := reads_plain (by decide)
    have htext : ("(" ++ value ++ ") || null").toList =
        ([] ++ '(' :: (value.toList ++ [')'])) ++ ' ' :: "|| null".toList := by
      simp [String.toList_append]
    refine ⟨[name] ++ [], ?_, by simp⟩
    rw [if_pos rfl, htext]
    exact henclosed.spaced hnull

/-- What converts a value stands in front of a bracket. -/
theorem reads_converted {opening value closing : String} {xs : List String} (converter : List Char)
    (hopening : opening.toList = converter ++ ['(']) (hclosing : closing.toList = [')'])
    (hword : converter.all isWordChar = true) (hne : converter ≠ reader)
    (hvalue : Reads callee xs value.toList) : Reads callee xs (opening ++ value ++ closing).toList := by
  rw [String.toList_append, String.toList_append, hopening, hclosing, List.append_assoc, List.append_assoc]
  exact hvalue.enclosed (List.all_eq_true.mp hword) hne (by simp)

theorem reads_asString {value : String} (hvalue : Reads callee [name] value.toList) :
    Reads callee [name] (value ++ " as string").toList := by
  have htext : (value ++ " as string").toList = value.toList ++ ' ' :: "as string".toList := by
    simp [String.toList_append]
  rw [htext]
  exact hvalue.spaced (reads_plain (by decide))

/-- A type that mentions the name in a literal does not read it. -/
theorem reads_asProperty {value : String} (hvalue : Reads callee [name] value.toList)
    (hname : '"' ∉ name.toList) (hpascal : ∀ c ∈ pascalName.toList, c.isAlphanum = true) :
    Reads callee [name] (value ++ " as New" ++ pascalName ++ "[\"" ++ name ++ "\"]").toList := by
  have htext : (value ++ " as New" ++ pascalName ++ "[\"" ++ name ++ "\"]").toList = value.toList ++ ' ' ::
      ("as".toList ++ ' ' :: (("New".toList ++ pascalName.toList) ++ '[' ::
        (('"' :: name.toList ++ ['"']) ++ [']']))) := by
    simp [String.toList_append]
  have hword : ∀ c ∈ "New".toList ++ pascalName.toList, isWordChar c = true := by
    refine List.forall_mem_append.mpr ⟨List.all_eq_true.mp (by decide), fun c hc => ?_⟩
    rw [isWordChar, hpascal c hc]
    rfl
  have hne : "New".toList ++ pascalName.toList ≠ reader := by
    have hfirst : reader.head? ≠ some 'N' := by decide
    exact fun he => hfirst (he ▸ rfl)
  have hproperty : Reads callee [] (("New".toList ++ pascalName.toList) ++ '[' ::
      (('"' :: name.toList ++ ['"']) ++ [']'])) := (reads_quoted hname).enclosed hword hne (by simp)
  have has : Reads callee [] "as".toList := reads_plain (by decide)
  rw [htext]
  exact hvalue.spaced (has.spaced hproperty)

/-- The value of a field reads the field's name, and no other name. -/
theorem reads_formValue (callee : List Char) (field : Field)
    (hname : ∀ c ∈ field.name.toList, isNameChar c = true)
    (hpascal : ∀ c ∈ pascalName.toList, c.isAlphanum = true) : ∃ given,
    Reads callee given (field.formValue pascalName).toList ∧ given.dedup = [field.name] := by
  have hquote := Markup.not_mem_name hname (d := '"') (by decide)
  have hraw : Reads callee [field.name] ("formData.get(\"" ++ field.name ++ "\")").toList :=
    reads_name hquote
  unfold Field.formValue
  generalize "formData.get(\"" ++ field.name ++ "\")" = raw at hraw ⊢
  have hstring := reads_asString hraw
  dsimp only
  split
  case h_1 =>
    have htext : (raw ++ " === \"on\"").toList =
        raw.toList ++ ' ' :: ("===".toList ++ ' ' :: ('"' :: "on".toList ++ ['"'])) := by
      simp [String.toList_append]
    have hsign : Reads callee [] "===".toList := reads_plain (by decide)
    refine ⟨[field.name] ++ ([] ++ []), ?_, by simp⟩
    rw [htext]
    exact hraw.spaced (hsign.spaced (reads_quoted (by decide)))
  case h_2 | h_3 | h_4 | h_5 =>
    have hnumber : Reads callee [field.name] ("Number(" ++ raw ++ ")").toList :=
      reads_converted "Number".toList (by decide) (by decide) (by decide) (by decide) hraw
    exact reads_whenGiven field.nullable hraw hnumber
  case h_6 | h_7 =>
    have hdate : Reads callee [field.name] ("new Date(" ++ raw ++ " as string)").toList := by
      have htext : ("new Date(" ++ raw ++ " as string)").toList =
          "new".toList ++ ' ' :: ("Date(" ++ (raw ++ " as string") ++ ")").toList := by
        simp [String.toList_append]
      have hnew : Reads callee [] "new".toList := reads_plain (by decide)
      rw [htext]
      exact hnew.spaced (reads_converted "Date".toList (by decide) (by decide) (by decide) (by decide) hstring)
    exact reads_whenGiven field.nullable hraw hdate
  case h_8 =>
    have hparsed : Reads callee [field.name] ("JSON.parse(" ++ raw ++ " as string)").toList := by
      have htext : ("JSON.parse(" ++ raw ++ " as string)").toList =
          ("JSON.parse(" ++ (raw ++ " as string") ++ ")").toList := by
        simp [String.toList_append]
      rw [htext]
      exact reads_converted "JSON.parse".toList (by decide) (by decide) (by decide) (by decide) hstring
    exact reads_whenGiven field.nullable hraw hparsed
  case h_9 => exact reads_orNull field.nullable (reads_asProperty hraw hquote hpascal)
  case h_10 | h_11 | h_12 | h_13 => exact reads_orNull field.nullable hstring

theorem step_key {c : Char} (hc : isNameChar c = true) {key : List Char}
    (hkey : key ≠ [] ∨ Text.isBlank c = false) :
    step callee ⟨.key key, entries⟩ c = ⟨.key (key ++ [c]), entries⟩ := by
  have hne : c ≠ ':' ∧ c ≠ ',' ∧ c ≠ '}' :=
    ⟨Markup.ne_of_nameChar hc (by decide), Markup.ne_of_nameChar hc (by decide),
      Markup.ne_of_nameChar hc (by decide)⟩
  have hstays : (key.isEmpty && Text.isBlank c) = false := by
    rcases hkey with hkey | hkey <;> simp [hkey]
  simp [step, hne, hstays]

/-- The name of a field is read as a key. -/
theorem read_key (h : Field.isFieldName name = true) :
    name.toList.foldl (step callee) ⟨.key [], entries⟩ = ⟨.key name.toList, entries⟩ := by
  obtain ⟨hchars, c, rest, hlower, hname⟩ := Field.isFieldName_chars h
  rw [hname] at hchars ⊢
  obtain ⟨hc, hrest⟩ := List.forall_mem_cons.mp hchars
  have hblank := nameChar_forall (p := fun c => c.isLower = true → Text.isBlank c = false)
    (by decide) hc hlower
  rw [List.foldl_cons, step_key hc (.inr hblank), List.nil_append]
  exact collects (fun front => Reading.mk (.key (c :: front)) entries)
    (fun front d hd => step_key (hrest d hd) (.inl (by simp))) []

/-- The line with the entry of a field. -/
def entryLine (pascalName : String) (field : Field) : String :=
  "      " ++ field.name ++ ": " ++ field.formValue pascalName ++ ","

theorem read_entry (callee : List Char) (entries : List (String × List String)) {field : Field}
    (hfield : Field.Accepted field) (hpascal : ∀ c ∈ pascalName.toList, c.isAlphanum = true) :
    ∃ given, given.dedup = [field.name] ∧
      ((entryLine pascalName field).toList ++ ['\n']).foldl (step callee) ⟨.key [], entries⟩ =
        ⟨.key [], entries ++ [(field.name, given)]⟩ := by
  obtain ⟨given, hreads, hgiven⟩ :=
    reads_formValue callee field (Field.isFieldName_chars hfield.name).1 hpascal
  obtain ⟨word, hvalue⟩ := hreads field.name.toList [] [] entries (by simp)
  refine ⟨given, hgiven, ?_⟩
  have hindent : "      ".toList.foldl (step callee) ⟨.key [], entries⟩ = ⟨.key [], entries⟩ := by cbv
  have hcolon : ∀ key, ": ".toList.foldl (step callee) ⟨.key key, entries⟩ =
      ⟨.value key [] [] [], entries⟩ := fun key => by cbv
  have hcomma : ∀ key, (",".toList ++ ['\n']).foldl (step callee) ⟨.value key [] word given, entries⟩ =
      ⟨.key [], entries ++ [(String.ofList key, given)]⟩ := fun key => by cbv
  simp only [entryLine, String.toList_append, List.append_assoc, List.foldl_append]
  rw [hindent, read_key hfield.name, hcolon, hvalue, List.nil_append, ← List.foldl_append, hcomma,
    String.ofList_toList]

theorem read_entries (callee : List Char) (entries : List (String × List String)) {fields : List Field}
    (hfields : ∀ field ∈ fields, Field.Accepted field)
    (hpascal : ∀ c ∈ pascalName.toList, c.isAlphanum = true) : ∃ found : List (String × List String),
      (found.map fun entry => (entry.1, entry.2.dedup)) = (fields.map fun field => (field.name, [field.name])) ∧
      (Text.unlines (fields.map (entryLine pascalName))).toList.foldl (step callee) ⟨.key [], entries⟩ =
        ⟨.key [], entries ++ found⟩ := by
  induction fields generalizing entries with
  | nil => exact ⟨[], rfl, by rw [List.append_nil]; rfl⟩
  | cons field fields ih =>
    obtain ⟨hfield, hfields⟩ := List.forall_mem_cons.mp hfields
    obtain ⟨given, hgiven, hentry⟩ := read_entry callee entries hfield hpascal
    obtain ⟨found, hfound, hrest⟩ := ih (entries ++ [(field.name, given)]) hfields
    refine ⟨(field.name, given) :: found, by simp [hgiven, hfound], ?_⟩
    rw [Text.toList_unlines, List.map_cons, List.flatMap_cons, ← Text.toList_unlines, List.foldl_append, hentry,
      hrest, List.append_assoc, List.singleton_append]

end Entries

/-! ## The call -/

/-- A text that does not call the function. -/
def Passes (callee cs : List Char) : Prop :=
  ∀ entries, Keeps (step callee) ⟨.seeking [], entries⟩ cs

theorem Passes.append {a b : List Char} (ha : Passes callee a) (hb : Passes callee b) :
    Passes callee (a ++ b) := fun entries => (ha entries).append (hb entries)

theorem Passes.lines {lines : List String} (h : ∀ line ∈ lines, Passes callee (line.toList ++ ['\n'])) :
    Passes callee (Text.unlines lines).toList := fun entries =>
  .lines fun line hline => h line hline entries

theorem read_seeking {w : List Char} (hw : ∀ c ∈ w, isWordChar c = true) (word : List Char) :
    w.foldl (step callee) ⟨.seeking word, entries⟩ = ⟨.seeking (word ++ w), entries⟩ :=
  collects (fun word => Reading.mk (.seeking word) entries) (fun _ c hc => if_pos (hw c hc)) word

/-- Nothing is called without a bracket. -/
theorem passes_of_not_mem {d : Char} (h : '(' ∉ cs) (hd : isWordChar d = false) (hne : d ≠ '(') :
    Passes callee (cs ++ [d]) := by
  intro entries
  have hstep : ∀ word, ∀ c ∈ cs, ∃ word', step callee ⟨.seeking word, entries⟩ c =
      ⟨.seeking word', entries⟩ := by
    intro word c hc
    have hne : (c == '(') = false := beq_false_of_ne fun he => h (he ▸ hc)
    refine ⟨if isWordChar c then word ++ [c] else [], ?_⟩
    simp only [step, hne]
    split <;> rfl
  obtain ⟨word, hword⟩ := stays (fun word => Reading.mk (.seeking word) entries) hstep []
  rw [Keeps, List.foldl_append, hword, List.foldl_cons, List.foldl_nil]
  simp [step, hd, hne]

/-- Another function is not the one that is called. -/
theorem passes_call {w : List Char} (hw : ∀ c ∈ w, isWordChar c = true) (hne : w ≠ callee) :
    Passes callee (w ++ ['(']) := by
  intro entries
  have hbracket : isWordChar '(' = false := by decide
  rw [Keeps, List.foldl_append, read_seeking hw, List.nil_append, List.foldl_cons, List.foldl_nil]
  simp [step, hbracket, hne]

/-- A line that calls another function, and not this one behind that. -/
theorem passes_line {front w back : List Char} (hfront : '(' ∉ front) (hw : ∀ c ∈ w, isWordChar c = true)
    (hne : w ≠ callee) (hback : Passes callee (back ++ ['\n'])) :
    Passes callee (front ++ ' ' :: (w ++ '(' :: back) ++ ['\n']) := by
  have hspace : Passes callee (front ++ [' ']) := passes_of_not_mem hfront (by decide) (by decide)
  simpa using (hspace.append (passes_call hw hne)).append hback

/-- A line that calls nothing. -/
theorem passes_plain {line : List Char} (h : '(' ∉ line) : Passes callee (line ++ ['\n']) :=
  passes_of_not_mem h (by decide) (by decide)

theorem keeps_closed (cs : List Char) : Keeps (step callee) ⟨.closed, entries⟩ cs :=
  keeps_of_forall fun _ _ => rfl

/-- The object that is passed at the first call of a function is read entry by entry. -/
theorem submitted_call {callee text : String} (hcallee : ∀ c ∈ callee.toList, isWordChar c = true)
    {before arguments after : List Char} (hbefore : Passes callee.toList before) (harguments : '{' ∉ arguments)
    {fields : List Field} (hfields : ∀ field ∈ fields, Field.Accepted field) {pascalName : String}
    (hpascal : ∀ c ∈ pascalName.toList, c.isAlphanum = true)
    (htext : text.toList = before ++ (callee.toList ++ '(' :: (arguments ++ ['{', '\n'])) ++
      (Text.unlines (fields.map (entryLine pascalName))).toList ++
      ("\n    \x7d".toList ++ after)) :
    submitted callee text = fields.map fun field => (field.name, [field.name]) := by
  obtain ⟨found, hfound, hentries⟩ := read_entries callee.toList [] hfields hpascal
  have hcalled : step callee.toList ⟨.seeking callee.toList, []⟩ '(' = ⟨.passing, []⟩ := by
    have hbracket : isWordChar '(' = false := by decide
    simp [step, hbracket]
  have hpassing : Keeps (step callee.toList) ⟨.passing, []⟩ arguments :=
    keeps_of_forall fun c hc => if_neg (by simpa using fun he : c = '{' => harguments (he ▸ hc))
  have hopened : ∀ callee, ['{', '\n'].foldl (step callee) ⟨.passing, []⟩ = ⟨.key [], []⟩ :=
    fun callee => by cbv
  have hclosed : ∀ callee, "\n    \x7d".toList.foldl (step callee) ⟨.key [], [] ++ found⟩ =
      ⟨.closed, found⟩ := fun callee => by cbv
  rw [submitted, htext, List.foldl_append, List.foldl_append, List.foldl_append, List.foldl_append,
    List.foldl_append, List.foldl_cons, List.foldl_append, hbefore, read_seeking hcallee, List.nil_append,
    hcalled, hpassing, hopened, hentries, hclosed, keeps_closed, hfound]

end SchemaScaffold.Generated.Submission
