import Mathlib
import SchemaScaffold.Generated.Form
import SchemaScaffold.Proofs.Field.Accepted
import SchemaScaffold.Proofs.Naming.Spellings
import SchemaScaffold.Proofs.Text.LineFeeds

/-!
The controls of a form, as they are read from its markup. A page is read from left to right: the tag of
a control opens where its name stands behind a bracket, goes over quoted values and over code in braces,
and ends with the next bracket. What a field brings into its control leaves the reading where it was,
so each field gives one control, and that has the name of the field.
-/

namespace SchemaScaffold.Generated

open Naming

/-- Reading a text, character by character, leads back to where it started. -/
def Keeps {σ : Type} (step : σ → Char → σ) (s : σ) (cs : List Char) : Prop := cs.foldl step s = s

section Keeps

variable {σ : Type} {step : σ → Char → σ} {s : σ}

theorem Keeps.append {a b : List Char} (ha : Keeps step s a) (hb : Keeps step s b) :
    Keeps step s (a ++ b) := by
  rw [Keeps, List.foldl_append, ha, hb]

theorem keeps_of_forall {cs : List Char} (h : ∀ c ∈ cs, step s c = s) : Keeps step s cs := by
  induction cs with
  | nil => rfl
  | cons c cs ih =>
    obtain ⟨hc, hcs⟩ := List.forall_mem_cons.mp h
    rw [Keeps, List.foldl_cons, hc, ih hcs]

theorem Keeps.lines {lines : List String} (h : ∀ line ∈ lines, Keeps step s (line.toList ++ ['\n'])) :
    Keeps step s (Text.unlines lines).toList := by
  rw [Text.toList_unlines]
  induction lines with
  | nil => rfl
  | cons line lines ih =>
    obtain ⟨hline, hlines⟩ := List.forall_mem_cons.mp h
    rw [List.flatMap_cons]
    exact hline.append (ih hlines)

/-- A reading that takes down each character of a text has taken down the text in the end. -/
theorem collects (state : List Char → σ) {cs : List Char}
    (h : ∀ front, ∀ c ∈ cs, step (state front) c = state (front ++ [c])) (front : List Char) :
    cs.foldl step (state front) = state (front ++ cs) := by
  induction cs generalizing front with
  | nil => rw [List.foldl_nil, List.append_nil]
  | cons c cs ih =>
    have hcs : ∀ front, ∀ d ∈ cs, step (state front) d = state (front ++ [d]) :=
      fun front d hd => h front d (List.mem_cons_of_mem _ hd)
    rw [List.foldl_cons, h front c List.mem_cons_self, ih hcs, List.append_assoc, List.singleton_append]

/-- A reading that no character leads out of some places stays in them. -/
theorem stays (state : List Char → σ) {cs : List Char}
    (h : ∀ word, ∀ c ∈ cs, ∃ word', step (state word) c = state word') (word : List Char) :
    ∃ word', cs.foldl step (state word) = state word' := by
  induction cs generalizing word with
  | nil => exact ⟨word, rfl⟩
  | cons c cs ih =>
    obtain ⟨word', hstep⟩ := h word c List.mem_cons_self
    rw [List.foldl_cons, hstep]
    exact ih (fun word d hd => h word d (List.mem_cons_of_mem _ hd)) word'

end Keeps

namespace Markup

/-! ## Reading markup -/

/-- The tags that put a control into a form. -/
def controlTags : List String := ["input", "select", "textarea"]

/-- Where a reading of markup stands. -/
inductive Place
  | outside
  /-- Behind a bracket and letters. -/
  | tag (letters : List Char)
  /-- In the tag of a control, behind the start of a property. -/
  | inside (word : List Char)
  /-- In the quoted value of a property. -/
  | value (word text : List Char)
  /-- In code between braces, and in a literal there. -/
  | code (depth : Nat)
  | literal (depth : Nat)

structure Reading where
  place : Place
  /-- The names that the open control has so far. -/
  names : List String
  /-- The names of the controls before. -/
  controls : List (List String)

def stepInside (word : List Char) (r : Reading) (c : Char) : Reading :=
  if c == '>' then { place := .outside, names := [], controls := r.controls ++ [r.names] }
  else if c == '"' then { r with place := .value word [] }
  else if c == '{' then { r with place := .code 0 }
  else { r with place := .inside (if Text.isBlank c then [] else word ++ [c]) }

def step (r : Reading) (c : Char) : Reading :=
  match r.place with
  | .outside => if c == '<' then { r with place := .tag [] } else r
  | .tag letters =>
    if c.isAlpha then { r with place := .tag (letters ++ [c]) }
    else if controlTags.contains (String.ofList letters) then stepInside [] { r with names := [] } c
    else { r with place := if c == '<' then .tag [] else .outside }
  | .inside word => stepInside word r c
  | .value word text =>
    if c == '"' then
      { r with
        place := .inside []
        names := if word == "name=".toList then r.names ++ [String.ofList text] else r.names }
    else { r with place := .value word (text ++ [c]) }
  | .code depth =>
    if c == '"' then { r with place := .literal depth }
    else if c == '{' then { r with place := .code (depth + 1) }
    else if c == '}' then { r with place := if depth == 0 then .inside [] else .code (depth - 1) }
    else r
  | .literal depth => if c == '"' then { r with place := .code depth } else r

/-- The controls of a text, each with the values of its `name` properties. -/
def controls (text : String) : List (List String) :=
  (text.toList.foldl step { place := .outside, names := [], controls := [] }).controls

/-- A text between the tags of controls. -/
def Quiet (cs : List Char) : Prop := ∀ names controls, Keeps step ⟨.outside, names, controls⟩ cs

/-- Code in the value of a property. -/
def Coded (cs : List Char) : Prop := ∀ names controls, Keeps step ⟨.code 0, names, controls⟩ cs

/-- Properties of a control, with the names that they give it. -/
def Gives (given : List String) (cs : List Char) : Prop := ∀ names controls,
  cs.foldl step ⟨.inside [], names, controls⟩ = ⟨.inside [], names ++ given, controls⟩

variable {a b cs : List Char}

theorem Quiet.append (ha : Quiet a) (hb : Quiet b) : Quiet (a ++ b) := fun names controls =>
  (ha names controls).append (hb names controls)

theorem Coded.append (ha : Coded a) (hb : Coded b) : Coded (a ++ b) := fun names controls =>
  (ha names controls).append (hb names controls)

theorem Gives.append {xs ys : List String} (ha : Gives xs a) (hb : Gives ys b) :
    Gives (xs ++ ys) (a ++ b) := by
  intro names controls
  rw [List.foldl_append, ha, hb, List.append_assoc]

theorem Gives.lines {xs ys a b : List String} (ha : Gives xs (Text.unlines a).toList)
    (hb : Gives ys (Text.unlines b).toList) : Gives (xs ++ ys) (Text.unlines (a ++ b)).toList := by
  rw [Text.toList_unlines_append]
  exact ha.append hb

theorem Quiet.lines {lines : List String} (h : ∀ line ∈ lines, Quiet line.toList) :
    Quiet (Text.unlines lines).toList := fun names controls =>
  .lines fun line hline => (h line hline names controls).append rfl

theorem quiet_of_not_mem (h : '<' ∉ cs) : Quiet cs := fun names controls =>
  keeps_of_forall fun c hc => if_neg (by simpa using fun he : c = '<' => h (he ▸ hc))

theorem coded_of_not_mem (h : ∀ c ∈ cs, c ≠ '"' ∧ c ≠ '{' ∧ c ≠ '}') : Coded cs :=
  fun names controls => keeps_of_forall fun c hc => by
    obtain ⟨hquote, hopen, hclose⟩ := h c hc
    simp [step, hquote, hopen, hclose]

/-- A quoted value is read up to its quote. -/
theorem read_value (h : '"' ∉ cs) (word text : List Char) (names : List String)
    (controls : List (List String)) : cs.foldl step ⟨.value word text, names, controls⟩ =
      ⟨.value word (text ++ cs), names, controls⟩ := by
  refine collects (fun text => Reading.mk (.value word text) names controls) (fun text c hc => ?_) text
  exact if_neg (by simpa using fun he : c = '"' => h (he ▸ hc))

/-- A control: its tag, its properties, and the end of the tag. -/
theorem read_control {opening closing : String} {properties : List String} {given : List String}
    (hopening : ∀ names controls, (opening.toList ++ ['\n']).foldl step ⟨.outside, names, controls⟩ =
      ⟨.inside [], [], controls⟩)
    (hproperties : Gives given (Text.unlines properties).toList)
    (hclosing : ∀ names controls, (closing.toList ++ ['\n']).foldl step ⟨.inside [], names, controls⟩ =
      ⟨.outside, [], controls ++ [names]⟩) (names : List String) (controls : List (List String)) :
    (Text.unlines (opening :: properties ++ [closing])).toList.foldl step ⟨.outside, names, controls⟩ =
      ⟨.outside, [], controls ++ [given]⟩ := by
  rw [Text.toList_unlines] at hproperties ⊢
  rw [List.flatMap_append, List.flatMap_cons, List.foldl_append, List.foldl_append, hopening, hproperties,
    List.nil_append, List.flatMap_singleton, hclosing]

/-! ## The control of a field -/

theorem ne_of_nameChar {c d : Char} (hc : isNameChar c = true) (hd : isNameChar d = false) : c ≠ d := by
  rintro rfl
  rw [hc] at hd
  cases hd

theorem not_mem_name {s : String} (h : ∀ c ∈ s.toList, isNameChar c = true) {d : Char}
    (hd : isNameChar d = false) : d ∉ s.toList := fun hmem => ne_of_nameChar (h d hmem) hd rfl

theorem quiet_name {s : String} (h : ∀ c ∈ s.toList, isNameChar c = true) : Quiet s.toList :=
  quiet_of_not_mem (not_mem_name h (by decide))

theorem coded_name {s : String} (h : ∀ c ∈ s.toList, isNameChar c = true) : Coded s.toList :=
  coded_of_not_mem fun c hc => ⟨ne_of_nameChar (h c hc) (by decide), ne_of_nameChar (h c hc) (by decide),
    ne_of_nameChar (h c hc) (by decide)⟩

variable {field : Field} {record : String}

/-- The code that fills a control in stays between its braces. -/
theorem coded_defaultValue (hname : ∀ c ∈ field.name.toList, isNameChar c = true)
    (hrecord : ∀ c ∈ record.toList, isNameChar c = true) : Coded (field.defaultValue record).toList := by
  have hdot : Coded ".".toList := fun _ _ => by cbv
  have hvalue : Coded (record ++ "." ++ field.name).toList := by
    rw [String.toList_append, String.toList_append]
    exact ((coded_name hrecord).append hdot).append (coded_name hname)
  -- code that mentions the value once, and code that mentions it twice
  have honce : ∀ {after : String}, Coded after.toList →
      Coded (record ++ "." ++ field.name ++ after).toList := by
    intro after hafter
    rw [String.toList_append]
    exact hvalue.append hafter
  have htwice : ∀ {between after : String}, Coded between.toList → Coded after.toList →
      Coded (record ++ "." ++ field.name ++ between ++ (record ++ "." ++ field.name) ++ after).toList := by
    intro between after hbetween hafter
    rw [String.toList_append, String.toList_append]
    exact ((honce hbetween).append hvalue).append hafter
  unfold Field.defaultValue
  dsimp only
  split
  · exact honce fun _ _ => by cbv
  · exact htwice (fun _ _ => by cbv) fun _ _ => by cbv
  · exact htwice (fun _ _ => by cbv) fun _ _ => by cbv
  · exact htwice (fun _ _ => by cbv) fun _ _ => by cbv
  · exact honce fun _ _ => by cbv

/-- A property with a quoted value gives the control a name if it is called so. -/
theorem gives_property {front value : String} (word : List Char)
    (hfront : ∀ names controls, front.toList.foldl step ⟨.inside [], names, controls⟩ =
      ⟨.value word [], names, controls⟩) (hvalue : '"' ∉ value.toList) :
    Gives (if word == "name=".toList then [value] else [])
      ((front ++ value ++ "\"").toList ++ ['\n']) := by
  intro names controls
  rw [String.toList_append, String.toList_append, List.foldl_append, List.foldl_append, List.foldl_append,
    hfront, read_value hvalue, List.nil_append]
  have hclosed : ("\"".toList).foldl step ⟨.value word value.toList, names, controls⟩ =
      ⟨.inside [], if word == "name=".toList then names ++ [value] else names, controls⟩ := by
    rw [← String.ofList_toList (s := value)]
    simp [step]
  rw [hclosed]
  split <;> simp [step, stepInside, Text.isBlank, Text.inRanges, Text.blankRanges]

theorem gives_none (h : ∀ names controls, Keeps step ⟨.inside [], names, controls⟩ cs) : Gives [] cs :=
  fun names controls => (h names controls).trans (by rw [List.append_nil])

theorem gives_identityLines (hname : '"' ∉ field.name.toList) :
    Gives [field.name] (Text.unlines (identityLines field)).toList := by
  have hid : Gives [] (("            id=\"" ++ field.name ++ "\"").toList ++ ['\n']) :=
    gives_property "id=".toList (fun _ _ => by cbv) hname
  have hnamed : Gives [field.name] (("            name=\"" ++ field.name ++ "\"").toList ++ ['\n']) :=
    gives_property "name=".toList (fun _ _ => by cbv) hname
  rw [Text.toList_unlines]
  exact hid.append (hnamed.append (gives_none fun _ _ => rfl))

theorem gives_defaultLines {property : String} (hproperty : property ∈ ["defaultValue", "defaultChecked"])
    (hname : ∀ c ∈ field.name.toList, isNameChar c = true) {record : Option String}
    (hrecord : ∀ r ∈ record, ∀ c ∈ r.toList, isNameChar c = true) :
    Gives [] (Text.unlines (defaultLines property field record)).toList := by
  refine gives_none fun names controls => ?_
  cases record with
  | none => rfl
  | some record =>
    have hopened : ("            " ++ property ++ "=\x7b ").toList.foldl step ⟨.inside [], names, controls⟩ =
        ⟨.code 0, names, controls⟩ := by
      simp only [List.mem_cons, List.not_mem_nil, or_false] at hproperty
      rcases hproperty with rfl | rfl <;> cbv
    have hcode := coded_defaultValue hname (hrecord record rfl) names controls
    have hclosed : (" \x7d\n".toList).foldl step ⟨.code 0, names, controls⟩ =
        ⟨.inside [], names, controls⟩ := by cbv
    have htext : (Text.unlines (defaultLines property field (some record))).toList =
        ("            " ++ property ++ "=\x7b ").toList ++ (field.defaultValue record).toList ++
          " \x7d\n".toList := by
      rw [Text.toList_unlines]
      simp [defaultLines, toString]
    rw [Keeps, htext, List.foldl_append, List.foldl_append, hopened, hcode, hclosed]

theorem gives_requiredLines (field : Field) : Gives [] (Text.unlines (requiredLines field)).toList := by
  refine gives_none fun names controls => ?_
  unfold requiredLines
  split <;> cbv

theorem gives_stepLines (field : Field) : Gives [] (Text.unlines (stepLines field)).toList := by
  refine gives_none fun names controls => ?_
  unfold stepLines
  split <;> cbv

/-- The characters that references in markup are written with. -/
def isReferenceChar (c : Char) : Bool := c.isAlphanum || "&#;".toList.contains c

/-- A character stands for itself in markup, or for a reference. -/
theorem markupChar_cases (c : Char) :
    markupChar c = [c] ∨ ∀ d ∈ markupChar c, isReferenceChar d = true := by
  unfold markupChar
  split
  case h_6 => exact .inl rfl
  all_goals exact .inr (List.all_eq_true.mp (by decide))

/-- What no reference is written with stands in markup if it stands for itself, and in the text. -/
theorem mem_markupText_iff {d : Char} (hd : isReferenceChar d = false) (s : String) :
    d ∈ (markupText s).toList ↔ markupChar d = [d] ∧ d ∈ s.toList := by
  rw [markupText, String.toList_ofList, List.mem_flatMap]
  constructor
  · rintro ⟨c, hc, hmem⟩
    rcases markupChar_cases c with hself | hreference
    · rw [hself, List.mem_singleton] at hmem
      rw [hmem]
      exact ⟨hself, hc⟩
    · rw [hreference d hmem] at hd
      cases hd
  · rintro ⟨hself, hmem⟩
    exact ⟨d, hmem, by rw [hself, List.mem_singleton]⟩

/-- What is always written as a reference stands in no markup. -/
theorem not_mem_markupText {d : Char} (hd : isReferenceChar d = false) (hreference : markupChar d ≠ [d])
    (s : String) : d ∉ (markupText s).toList := fun hmem =>
  hreference ((mem_markupText_iff hd s).mp hmem).1

theorem quiet_optionLine (value : String) : Quiet (optionLine value).toList := by
  -- no value of an enum opens a tag
  have hvalue := quiet_of_not_mem (not_mem_markupText (d := '<') (by decide) (by decide) value)
  have hline : optionLine value =
      "            <option value=\"" ++ markupText value ++ "\">" ++ markupText value ++ "</option>" := rfl
  have hopening : Quiet "            <option value=\"".toList := fun _ _ => by cbv
  have hbetween : Quiet "\">".toList := fun _ _ => by cbv
  have hclosing : Quiet "</option>".toList := fun _ _ => by cbv
  simp only [hline, String.toList_append]
  exact (((hopening.append hvalue).append hbetween).append hvalue).append hclosing

theorem quiet_optionLines (field : Field) : ∀ line ∈ optionLines field, Quiet line.toList := by
  have hnone : Quiet "            <option value=\"\">None</option>".toList := fun _ _ => by cbv
  intro line hline
  rcases List.mem_append.mp hline with hline | hline
  · split at hline
    · rw [List.mem_singleton.mp hline]
      exact hnone
    · cases hline
  · obtain ⟨value, -, rfl⟩ := List.mem_map.mp hline
    exact quiet_optionLine value

theorem quote_not_mem_control (field : Field) : '"' ∉ field.control.toList := by
  unfold Field.control
  split <;> decide

theorem gives_typeLine {kind : String} (hkind : '"' ∉ kind.toList) :
    Gives [] (Text.unlines ["            type=\"" ++ kind ++ "\""]).toList := by
  rw [Text.toList_unlines, List.flatMap_singleton]
  exact gives_property "type=".toList (fun _ _ => by cbv) hkind

/-- The control of a field has the name of the field. -/
theorem read_controlLines (hname : ∀ c ∈ field.name.toList, isNameChar c = true) {record : Option String}
    (hrecord : ∀ r ∈ record, ∀ c ∈ r.toList, isNameChar c = true) (names : List String)
    (controls : List (List String)) :
    (Text.unlines (controlLines field record)).toList.foldl step ⟨.outside, names, controls⟩ =
      ⟨.outside, [], controls ++ [[field.name]]⟩ := by
  have hidentity := gives_identityLines (not_mem_name hname (d := '"') (by decide))
  have hdefault : ∀ property ∈ ["defaultValue", "defaultChecked"],
      Gives [] (Text.unlines (defaultLines property field record)).toList := fun property hproperty =>
    gives_defaultLines hproperty hname hrecord
  have hstart := hidentity.lines (hdefault "defaultValue" (by simp))
  have hrequired := gives_requiredLines field
  unfold controlLines
  split
  · exact read_control (fun _ _ => by cbv) (hstart.lines hrequired) (fun _ _ => by cbv) names controls
  · rw [List.append_assoc _ (optionLines field), Text.toList_unlines_append, List.foldl_append]
    have hopened : (Text.unlines (["          <select"] ++ identityLines field ++
        defaultLines "defaultValue" field record ++ requiredLines field ++ ["          >"])).toList.foldl step
          ⟨.outside, names, controls⟩ = ⟨.outside, [], controls ++ [[field.name]]⟩ :=
      read_control (fun _ _ => by cbv) (hstart.lines hrequired) (fun _ _ => by cbv) names controls
    rw [hopened]
    refine Quiet.lines (fun line hline => ?_) _ _
    rcases List.mem_append.mp hline with hline | hline
    · exact quiet_optionLines field line hline
    · rw [List.mem_singleton.mp hline]
      exact fun _ _ => by cbv
  · have htype := gives_typeLine (show '"' ∉ "checkbox".toList by decide)
    exact read_control (fun _ _ => by cbv) ((htype.lines hidentity).lines (hdefault "defaultChecked" (by simp)))
      (fun _ _ => by cbv) names controls
  · have htype := gives_typeLine (quote_not_mem_control field)
    exact read_control (fun _ _ => by cbv) ((((htype.lines hidentity).lines (gives_stepLines field)).lines
      (hdefault "defaultValue" (by simp))).lines hrequired) (fun _ _ => by cbv) names controls

theorem bracket_not_mem_humanize {s : String} (h : ∀ c ∈ s.toList, isNameChar c = true) :
    '<' ∉ (humanize s).toList := fun hmem => by
  rcases humanize_chars h _ hmem with he | he <;> revert he <;> decide

theorem quiet_humanize {s : String} (h : ∀ c ∈ s.toList, isNameChar c = true) :
    Quiet (humanize s).toList :=
  quiet_of_not_mem (bracket_not_mem_humanize h)

/-- So the lines of a field give one control, and its label gives none. -/
theorem read_fieldLines (hname : ∀ c ∈ field.name.toList, isNameChar c = true) {record : Option String}
    (hrecord : ∀ r ∈ record, ∀ c ∈ r.toList, isNameChar c = true) (controls : List (List String)) :
    (Text.unlines (fieldLines record field)).toList.foldl step ⟨.outside, [], controls⟩ =
      ⟨.outside, [], controls ++ [[field.name]]⟩ := by
  have hlabel : Quiet ("          <label htmlFor=\"" ++ field.name ++ "\">" ++ humanize field.name ++
      "</label>").toList := by
    have hopening : Quiet "          <label htmlFor=\"".toList := fun _ _ => by cbv
    have hbetween : Quiet "\">".toList := fun _ _ => by cbv
    have hclosing : Quiet "</label>".toList := fun _ _ => by cbv
    simp only [String.toList_append]
    exact (((hopening.append (quiet_name hname)).append hbetween).append (quiet_humanize hname)).append
      hclosing
  have hbefore : Quiet (Text.unlines ["        <div>", "          <label htmlFor=\"" ++ field.name ++
      "\">" ++ humanize field.name ++ "</label>"]).toList := by
    refine .lines fun line hline => ?_
    simp only [List.mem_cons, List.not_mem_nil, or_false] at hline
    rcases hline with rfl | rfl
    · exact fun _ _ => by cbv
    · exact hlabel
  have hafter : (Text.unlines ["        </div>", ""]).toList.foldl step
      ⟨.outside, [], controls ++ [[field.name]]⟩ = ⟨.outside, [], controls ++ [[field.name]]⟩ := by cbv
  have hlines : fieldLines record field = ["        <div>", "          <label htmlFor=\"" ++ field.name ++
      "\">" ++ humanize field.name ++ "</label>"] ++ controlLines field record ++ ["        </div>", ""] := rfl
  rw [hlines, Text.toList_unlines_append, Text.toList_unlines_append, List.foldl_append, List.foldl_append,
    hbefore, read_controlLines hname hrecord, hafter]

theorem read_fields {fields : List Field}
    (hnames : ∀ field ∈ fields, ∀ c ∈ field.name.toList, isNameChar c = true) {record : Option String}
    (hrecord : ∀ r ∈ record, ∀ c ∈ r.toList, isNameChar c = true) (controls : List (List String)) :
    (Text.unlines (fields.flatMap (fieldLines record))).toList.foldl step ⟨.outside, [], controls⟩ =
      ⟨.outside, [], controls ++ fields.map fun field => [field.name]⟩ := by
  induction fields generalizing controls with
  | nil => rw [List.map_nil, List.append_nil]; rfl
  | cons field fields ih =>
    obtain ⟨hname, hnames⟩ := List.forall_mem_cons.mp hnames
    rw [List.flatMap_cons, Text.toList_unlines_append, List.foldl_append, read_fieldLines hname hrecord,
      ih hnames, List.append_assoc, List.map_cons, List.singleton_append]

end Markup
end SchemaScaffold.Generated
