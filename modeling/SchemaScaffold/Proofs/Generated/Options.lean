import SchemaScaffold.Proofs.Generated.Forms
import SchemaScaffold.Proofs.Source.Lines

/-!
The options of a selection, as they are read from a page. An option is its opening tag up to the end of
the quoted value, and its child up to the closing tag. Escaping takes the quotes and the angle brackets
out of both, so each value of an enum gives one option, and its references stand for the value again.
Escaping was made for markup, though, and a child is also code between braces, which it leaves alone: an
option keeps its value in its child exactly if that holds no brace.
-/

namespace SchemaScaffold.Generated.Selection

open Naming

/-! ## References -/

def namedReferences : List (String × Char) :=
  [("amp", '&'), ("lt", '<'), ("gt", '>'), ("quot", '"'), ("apos", '\x27')]

/-- The character that a reference stands for, told by its name or its number. -/
def reference? (name : List Char) : Option Char :=
  match name with
  | '#' :: digits =>
    if digits.isEmpty || !digits.all Char.isDigit then none
    else some (Char.ofNat (Nat.ofDigitChars 10 digits 0))
  | _ => namedReferences.lookup (String.ofList name)

/-- A text with its references replaced, read from inside a reference or not. What is no reference stays
as it is. -/
def decodeFrom : Option (List Char) → List Char → List Char
  | none, [] => []
  | some name, [] => '&' :: name
  | none, c :: cs => if c == '&' then decodeFrom (some []) cs else c :: decodeFrom none cs
  | some name, c :: cs =>
    if c == '&' then '&' :: name ++ decodeFrom (some []) cs
    else if c == ';' then
      match reference? name with
      | some d => d :: decodeFrom none cs
      | none => '&' :: name ++ ';' :: decodeFrom none cs
    else decodeFrom (some (name ++ [c])) cs

def decode (cs : List Char) : List Char := decodeFrom none cs

theorem decodeFrom_markupChar (c : Char) (rest : List Char) :
    decodeFrom none (markupChar c ++ rest) = c :: decodeFrom none rest := by
  unfold markupChar
  split
  case h_6 hampersand _ _ _ _ =>
    have hplain : c ≠ '&' := hampersand
    simp [decodeFrom, hplain]
  all_goals rfl

/-- Escaping is undone by decoding. -/
theorem decode_markupText (s : String) : decode (markupText s).toList = s.toList := by
  have hchars : ∀ cs : List Char, decodeFrom none (cs.flatMap markupChar) = cs := by
    intro cs
    induction cs with
    | nil => rfl
    | cons c cs ih => rw [List.flatMap_cons, decodeFrom_markupChar, ih]
  rw [decode, markupText, String.toList_ofList, hchars]

/-! ## Reading options -/

/-- An option as it is written: what stands between the quotes of its value, and between its tags. -/
structure Choice where
  value : List Char
  child : List Char
  deriving DecidableEq, Repr

/-- The text before the first `mark`, and what follows it. -/
def upTo? (mark : List Char) : List Char → Option (List Char × List Char)
  | [] => none
  | c :: cs =>
    match Text.dropText? mark (c :: cs) with
    | some rest => some ([], rest)
    | none => (upTo? mark cs).map fun (front, rest) => (c :: front, rest)

def opening : List Char := "<option value=\"".toList

def between : List Char := "\">".toList

def closing : List Char := "</option>".toList

/-- The option that starts a text. -/
def choice? (cs : List Char) : Option Choice := do
  let cs ← Text.dropText? opening cs
  let (value, cs) ← upTo? between cs
  let (child, _) ← upTo? closing cs
  some { value, child }

/-- The options of a text, wherever they start in it. -/
def choices : List Char → List Choice
  | [] => []
  | c :: cs => (choice? (c :: cs)).toList ++ choices cs

theorem upTo?_first {m : Char} {mark front : List Char} (h : m ∉ front) (rest : List Char) :
    upTo? (m :: mark) (front ++ (m :: mark ++ rest)) = some (front, rest) := by
  induction front with
  | nil =>
    have hmark := Source.dropText?_append (m :: mark) rest
    rw [List.cons_append] at hmark
    rw [List.nil_append, List.cons_append, upTo?, hmark]
  | cons c front ih =>
    obtain ⟨hc, hfront⟩ := List.ne_and_not_mem_of_not_mem_cons h
    rw [List.cons_append, upTo?, Text.dropText?, if_neg (by simpa using hc), ih hfront]
    rfl

/-- A text brings options into the text that it is part of. -/
def Offers (given : List Choice) (cs : List Char) : Prop :=
  ∀ rest, choices (cs ++ rest) = given ++ choices rest

section Offers

variable {cs : List Char}

theorem Offers.append {xs ys : List Choice} {a b : List Char} (ha : Offers xs a) (hb : Offers ys b) :
    Offers (xs ++ ys) (a ++ b) := by
  intro rest
  rw [List.append_assoc, ha, hb, List.append_assoc]

theorem Offers.choices {given : List Choice} (h : Offers given cs) : choices cs = given := by
  have hend := h []
  rwa [List.append_nil, Selection.choices, List.append_nil] at hend

theorem Offers.lines {α : Type} {f : α → List String} {g : α → List Choice} {as : List α}
    (h : ∀ a ∈ as, Offers (g a) (Text.unlines (f a)).toList) :
    Offers (as.flatMap g) (Text.unlines (as.flatMap f)).toList := by
  induction as with
  | nil => exact fun _ => rfl
  | cons a as ih =>
    obtain ⟨ha, has⟩ := List.forall_mem_cons.mp h
    rw [List.flatMap_cons, List.flatMap_cons, Text.toList_unlines_append]
    exact ha.append (ih has)

/-- A mark that a text neither starts with nor is the start of does not stand where the text does. -/
theorem dropText?_eq_none {mark : List Char} (hshort : ¬ cs <+: mark) (hlong : ¬ mark <+: cs)
    (rest : List Char) : Text.dropText? mark (cs ++ rest) = none := by
  cases hdrop : Text.dropText? mark (cs ++ rest) with
  | none => rfl
  | some left =>
    have hmark : mark <+: cs ++ rest := ⟨left, (Source.dropText?_eq hdrop).symm⟩
    exact ((List.prefix_or_prefix_of_prefix hmark (List.prefix_append cs rest)).elim hlong hshort).elim

/-- No place of a text starts an option, whatever follows the text. -/
def apart : List Char → Bool
  | [] => true
  | c :: cs => !(c :: cs).isPrefixOf opening && !opening.isPrefixOf (c :: cs) && apart cs

theorem offers_of_apart (h : apart cs = true) : Offers [] cs := by
  induction cs with
  | nil => exact fun _ => rfl
  | cons c cs ih =>
    intro rest
    simp only [apart, Bool.and_eq_true, Bool.not_eq_true', ← Bool.not_eq_true,
      List.isPrefixOf_iff_prefix] at h
    obtain ⟨⟨hshort, hlong⟩, hcs⟩ := h
    have hnone : choice? (c :: cs ++ rest) = none := by
      rw [choice?, dropText?_eq_none hshort hlong]
      rfl
    rw [List.cons_append] at hnone ⊢
    rw [Selection.choices, hnone, ih hcs]
    rfl

theorem offers_of_not_mem (h : '<' ∉ cs) : Offers [] cs := by
  have hopening : opening = '<' :: "option value=\"".toList := rfl
  refine offers_of_apart ?_
  induction cs with
  | nil => rfl
  | cons c cs ih =>
    obtain ⟨hc, hcs⟩ := List.ne_and_not_mem_of_not_mem_cons h
    rw [apart, hopening, ih hcs]
    simp [List.isPrefixOf_cons_cons, hc, hc.symm]

theorem offers_around {a x b : String} (ha : apart a.toList = true) (hx : '<' ∉ x.toList)
    (hb : apart b.toList = true) : Offers [] (a ++ x ++ b).toList := by
  rw [String.toList_append, String.toList_append]
  exact ((offers_of_apart ha).append (offers_of_not_mem hx)).append (offers_of_apart hb)

end Offers

/-- Lines without an option. -/
def Silent (lines : List String) : Prop := ∀ line ∈ lines, Offers [] line.toList

section Silent

variable {a b lines : List String}

theorem Silent.append (ha : Silent a) (hb : Silent b) : Silent (a ++ b) := List.forall_mem_append.mpr ⟨ha, hb⟩

theorem silent_of_not_mem (h : ∀ line ∈ lines, '<' ∉ line.toList) : Silent lines := fun line hline =>
  offers_of_not_mem (h line hline)

theorem silent_of_apart (h : lines.all (fun line => apart line.toList) = true) : Silent lines := fun line hline =>
  offers_of_apart (List.all_eq_true.mp h line hline)

theorem Silent.offers (h : Silent lines) : Offers [] (Text.unlines lines).toList := by
  induction lines with
  | nil => exact fun _ => rfl
  | cons line lines ih =>
    obtain ⟨hline, hlines⟩ := List.forall_mem_cons.mp h
    have hbreak : Offers [] ['\n'] := offers_of_apart (by decide)
    have htext : (Text.unlines (line :: lines)).toList =
        line.toList ++ ['\n'] ++ (Text.unlines lines).toList := by
      rw [Text.toList_unlines, Text.toList_unlines, List.flatMap_cons]
    rw [htext]
    exact (hline.append hbreak).append (ih hlines)

end Silent

/-! ## The options of a field -/

/-- The values that the selection of a field offers, each with what a reader sees of it. -/
def offered (field : Field) : List (String × String) :=
  if field.isEnum then
    (if field.nullable then [("", "None")] else []) ++ (field.enumValues.getD []).map fun value => (value, value)
  else []

/-- A value and what is seen of it, escaped. -/
def written (entry : String × String) : Choice :=
  { value := (markupText entry.1).toList, child := (markupText entry.2).toList }

@[simp] theorem written_value (entry : String × String) : (written entry).value = (markupText entry.1).toList := rfl

@[simp] theorem written_child (entry : String × String) : (written entry).child = (markupText entry.2).toList := rfl

theorem choice?_option {value child : List Char} (hvalue : '"' ∉ value) (hchild : '<' ∉ child)
    (rest : List Char) :
    choice? (opening ++ (value ++ (between ++ (child ++ (closing ++ rest))))) = some ⟨value, child⟩ := by
  have hup : upTo? between (value ++ (between ++ (child ++ (closing ++ rest)))) =
      some (value, child ++ (closing ++ rest)) := upTo?_first hvalue _
  have hto : upTo? closing (child ++ (closing ++ rest)) = some (child, rest) := upTo?_first hchild _
  simp only [choice?, Source.dropText?_append, Option.bind_eq_bind, Option.bind_some, hup, hto]

/-- An option as it stands in a text. What follows its first bracket brings no other. -/
theorem offers_option {value child : List Char} (hquote : '"' ∉ value) (hvalue : '<' ∉ value)
    (hchild : '<' ∉ child) :
    Offers [⟨value, child⟩] (opening ++ (value ++ (between ++ (child ++ closing)))) := by
  have htag : opening = '<' :: "option value=\"".toList := rfl
  have hattribute : Offers [] "option value=\"".toList := offers_of_apart (by decide)
  have hbetween : Offers [] between := offers_of_apart (by decide)
  have hclosing : Offers [] closing := offers_of_apart (by decide)
  have hbehind : Offers [] ("option value=\"".toList ++ (value ++ (between ++ (child ++ closing)))) :=
    hattribute.append ((offers_of_not_mem hvalue).append
      (hbetween.append ((offers_of_not_mem hchild).append hclosing)))
  intro rest
  have hread := choice?_option hquote hchild rest
  have hassoc : opening ++ (value ++ (between ++ (child ++ (closing ++ rest)))) =
      opening ++ (value ++ (between ++ (child ++ closing))) ++ rest := by
    simp only [List.append_assoc]
  rw [hassoc, htag, List.cons_append, List.cons_append] at hread
  rw [htag, List.cons_append, List.cons_append, Selection.choices, hread, hbehind]
  rfl

/-- An option on a line of its own, as all are written. -/
theorem offers_optionLine {value child : String} (hquote : '"' ∉ value.toList) (hvalue : '<' ∉ value.toList)
    (hchild : '<' ∉ child.toList) :
    Offers [⟨value.toList, child.toList⟩]
      ("            <option value=\"" ++ value ++ "\">" ++ child ++ "</option>").toList := by
  have hindent : Offers [] "            ".toList := offers_of_apart (by decide)
  have hopening : "            <option value=\"".toList = "            ".toList ++ opening := by decide
  have hline : ("            <option value=\"" ++ value ++ "\">" ++ child ++ "</option>").toList =
      "            ".toList ++ (opening ++ (value.toList ++ (between ++ (child.toList ++ closing)))) := by
    simp only [String.toList_append, hopening, List.append_assoc]
    rfl
  rw [hline]
  exact hindent.append (offers_option hquote hvalue hchild)

theorem offers_optionLines {field : Field} (h : field.isEnum = true) :
    Offers ((offered field).map written) (Text.unlines (optionLines field)).toList := by
  have hlines : optionLines field = (offered field).map fun entry =>
      "            <option value=\"" ++ markupText entry.1 ++ "\">" ++ markupText entry.2 ++ "</option>" := by
    rw [offered, if_pos h, optionLines, List.map_append, List.map_map]
    congr 1
    cases field.nullable <;> rfl
  have hentry : ∀ entry : String × String, Offers [written entry] (Text.unlines
      ["            <option value=\"" ++ markupText entry.1 ++ "\">" ++ markupText entry.2 ++ "</option>"]).toList := by
    intro entry
    have hbracket := Markup.not_mem_markupText (d := '<') (by decide) (by decide)
    have hquote := Markup.not_mem_markupText (d := '"') (by decide) (by decide)
    have hbreak : Offers [] ['\n'] := offers_of_apart (by decide)
    rw [Text.toList_unlines, List.flatMap_singleton]
    exact (offers_optionLine (hquote _) (hbracket _) (hbracket _)).append hbreak
  rw [hlines, List.map_eq_flatMap, List.map_eq_flatMap]
  exact .lines fun entry _ => hentry entry

theorem control_eq_select_iff (field : Field) : field.control = "select" ↔ field.isEnum = true := by
  unfold Field.control Field.isEnum
  cases field.type <;> decide

section Lines

variable {field : Field} {record : Option String}

theorem bracket_not_mem_control (field : Field) : '<' ∉ field.control.toList := by
  unfold Field.control
  split <;> decide

theorem bracket_not_mem_defaultValue (hname : '<' ∉ field.name.toList) {record : String}
    (hrecord : '<' ∉ record.toList) : '<' ∉ (field.defaultValue record).toList := by
  have hvalue : '<' ∉ (record ++ "." ++ field.name).toList := by
    simp [String.toList_append, hname, hrecord]
  unfold Field.defaultValue
  generalize record ++ "." ++ field.name = value at hvalue ⊢
  dsimp only
  split <;> simp [String.toList_append, hvalue]

theorem silent_identityLines (hname : '<' ∉ field.name.toList) : Silent (identityLines field) :=
  silent_of_not_mem (by simp [identityLines, toString, String.toList_append, hname])

theorem silent_defaultLines (hname : '<' ∉ field.name.toList) {property : String}
    (hproperty : '<' ∉ property.toList) (hrecord : ∀ r ∈ record, '<' ∉ r.toList) :
    Silent (defaultLines property field record) := by
  refine silent_of_not_mem ?_
  cases record with
  | none => simp [defaultLines]
  | some record =>
    have hvalue := bracket_not_mem_defaultValue hname (hrecord record rfl)
    simp [defaultLines, toString, String.toList_append, hproperty, hvalue]

theorem silent_requiredLines (field : Field) : Silent (requiredLines field) := by
  refine silent_of_apart ?_
  unfold requiredLines
  split <;> decide

theorem silent_stepLines (field : Field) : Silent (stepLines field) := by
  refine silent_of_apart ?_
  unfold stepLines
  split <;> decide

theorem silent_controlLines (hcontrol : field.control ≠ "select") (hname : '<' ∉ field.name.toList)
    (hrecord : ∀ r ∈ record, '<' ∉ r.toList) : Silent (controlLines field record) := by
  have hidentity := silent_identityLines hname
  have hvalue : Silent (defaultLines "defaultValue" field record) :=
    silent_defaultLines hname (by decide) hrecord
  have hchecked : Silent (defaultLines "defaultChecked" field record) :=
    silent_defaultLines hname (by decide) hrecord
  have hrequired := silent_requiredLines field
  have hkind : Silent ["          <input", "            type=\"" ++ field.control ++ "\""] :=
    List.forall_mem_cons.mpr ⟨offers_of_apart (by decide), List.forall_mem_cons.mpr
      ⟨offers_around (by decide) (bracket_not_mem_control field) (by decide), nofun⟩⟩
  have hend : Silent ["          />"] := silent_of_apart (by decide)
  unfold controlLines
  split
  · have harea : Silent ["          <textarea"] := silent_of_apart (by decide)
    exact (((harea.append hidentity).append hvalue).append hrequired).append hend
  · exact absurd ‹_› hcontrol
  · have hbox : Silent ["          <input", "            type=\"checkbox\""] := silent_of_apart (by decide)
    exact ((hbox.append hidentity).append hchecked).append hend
  · exact ((((hkind.append hidentity).append (silent_stepLines field)).append hvalue).append hrequired).append hend

theorem offers_selection (hcontrol : field.control = "select") (hname : '<' ∉ field.name.toList)
    (hrecord : ∀ r ∈ record, '<' ∉ r.toList) :
    Offers ((offered field).map written) (Text.unlines (controlLines field record)).toList := by
  have hselect : Silent ["          <select"] := silent_of_apart (by decide)
  have hopened : Silent ["          >"] := silent_of_apart (by decide)
  have hclosed : Silent ["          </select>"] := silent_of_apart (by decide)
  have hvalue : Silent (defaultLines "defaultValue" field record) :=
    silent_defaultLines hname (by decide) hrecord
  have hproperties := ((hselect.append (silent_identityLines hname)).append hvalue).append
    (silent_requiredLines field)
  have hoptions := offers_optionLines ((control_eq_select_iff field).mp hcontrol)
  have hall := ((hproperties.append hopened).offers.append hoptions).append hclosed.offers
  rw [List.nil_append, List.append_nil, ← Text.toList_unlines_append, ← Text.toList_unlines_append] at hall
  rwa [controlLines, hcontrol]

/-- Only a selection has options. -/
theorem offers_controlLines (hname : '<' ∉ field.name.toList) (hrecord : ∀ r ∈ record, '<' ∉ r.toList) :
    Offers ((offered field).map written) (Text.unlines (controlLines field record)).toList := by
  by_cases hcontrol : field.control = "select"
  · exact offers_selection hcontrol hname hrecord
  · have hnone : offered field = [] := if_neg (mt (control_eq_select_iff field).mpr hcontrol)
    rw [hnone]
    exact (silent_controlLines hcontrol hname hrecord).offers

theorem offers_fieldLines (hname : ∀ c ∈ field.name.toList, isNameChar c = true)
    (hrecord : ∀ r ∈ record, '<' ∉ r.toList) :
    Offers ((offered field).map written) (Text.unlines (fieldLines record field)).toList := by
  have hbracket := Markup.not_mem_name hname (d := '<') (by decide)
  have hlabel : Offers [] ("          <label htmlFor=\"" ++ field.name ++ "\">" ++ humanize field.name ++
      "</label>").toList := by
    have hfor : Offers [] ("          <label htmlFor=\"" ++ field.name ++ "\">").toList :=
      offers_around (by decide) hbracket (by decide)
    have hclosed : Offers [] "</label>".toList := offers_of_apart (by decide)
    rw [String.toList_append, String.toList_append]
    exact (hfor.append (offers_of_not_mem (Markup.bracket_not_mem_humanize hname))).append hclosed
  have hbefore : Silent ["        <div>", "          <label htmlFor=\"" ++ field.name ++ "\">" ++
      humanize field.name ++ "</label>"] :=
    List.forall_mem_cons.mpr ⟨offers_of_apart (by decide), List.forall_mem_cons.mpr ⟨hlabel, nofun⟩⟩
  have hafter : Silent ["        </div>", ""] := silent_of_apart (by decide)
  have hall := (hbefore.offers.append (offers_controlLines hbracket hrecord)).append hafter.offers
  rw [List.nil_append, List.append_nil, ← Text.toList_unlines_append, ← Text.toList_unlines_append] at hall
  exact hall

end Lines

/-! ## The options of a page -/

variable {m : Model} {fields : List Field}

/-- A page offers what its fields offer, if what it holds around their controls offers nothing. -/
theorem choices_page {p : Shape} (hhead : Silent (p.head ++ [p.callLine])) (hbetween : Silent p.between)
    (hfoot : Silent p.foot) (hfields : ∀ field ∈ fields, Field.Accepted field) {pascalName : String}
    (hpascal : ∀ c ∈ pascalName.toList, c.isAlphanum = true) {record : Option String}
    (hrecord : ∀ r ∈ record, '<' ∉ r.toList) :
    choices (p.page (fields.map (Submission.entryLine pascalName)) (fields.flatMap (fieldLines record))).toList =
      (fields.flatMap offered).map written := by
  have hnames : ∀ field ∈ fields, ∀ c ∈ field.name.toList, isNameChar c = true := fun field hfield =>
    (Field.isFieldName_chars (hfields field hfield).name).1
  have hentries : Silent (fields.map (Submission.entryLine pascalName)) := by
    refine silent_of_not_mem fun line hline => ?_
    obtain ⟨field, hfield, rfl⟩ := List.mem_map.mp hline
    exact Shape.bracket_not_mem_entryLine (hnames field hfield) hpascal
  have hcontrols : Offers (fields.flatMap fun field => (offered field).map written)
      (Text.unlines (fields.flatMap (fieldLines record))).toList :=
    .lines fun field hfield => offers_fieldLines (hnames field hfield) hrecord
  have hall := (((hhead.append hentries).append hbetween).offers.append hcontrols).append hfoot.offers
  rw [List.nil_append, List.append_nil, ← Text.toList_unlines_append, ← Text.toList_unlines_append] at hall
  rw [List.map_flatMap]
  exact hall.choices

theorem silent_between {p : Shape} (hredirect : Offers [] p.redirect.toList) (htitle : Offers [] p.title.toList) :
    Silent p.between := by
  simp only [Silent, Shape.between, List.forall_mem_cons, List.not_mem_nil, false_implies, implies_true, and_true]
  refine ⟨?_, ?_, ?_, hredirect, ?_, ?_, ?_, ?_, htitle, ?_, ?_⟩ <;> exact offers_of_apart (by decide)

theorem silent_foot {p : Shape} (hbutton : Offers [] p.button.toList) (hlink : Offers [] p.link.toList) :
    Silent p.foot := by
  simp only [Silent, Shape.foot, List.forall_mem_cons, List.not_mem_nil, false_implies, implies_true, and_true]
  refine ⟨hbutton, ?_, ?_, hlink, ?_, ?_, ?_⟩ <;> exact offers_of_apart (by decide)

theorem choices_newPage (h : Legible m) (hfields : ∀ field ∈ fields, Field.Accepted field) :
    choices (newPage m fields).toList = (fields.flatMap offered).map written := by
  have hone : '<' ∉ m.names.pascalName.toList := h.not_mem (by decide)
  have himport := h.not_mem_import fields (c := '<') (by decide) (by decide)
  have hkebab := h.bracket_not_mem_kebab
  have hhuman := Markup.bracket_not_mem_humanize h.nameChars
  rw [newPage_eq]
  refine choices_page ?_ (silent_between ?_ ?_) (silent_foot ?_ ?_) hfields h.one nofun
  · refine silent_of_not_mem ?_
    simp [newShape, Shape.callLine, String.toList_append, hone, himport]
  · exact offers_around (by decide) hkebab (by decide)
  · exact offers_around (by decide) hhuman (by decide)
  · exact offers_around (by decide) hhuman (by decide)
  · exact offers_around (by decide) hkebab (by decide)

theorem choices_editPage (h : Legible m) (hfields : ∀ field ∈ fields, Field.Accepted field) :
    choices (editPage m fields).toList = (fields.flatMap offered).map written := by
  have hone : '<' ∉ m.names.pascalName.toList := h.not_mem (by decide)
  have himport := h.not_mem_import fields (c := '<') (by decide) (by decide)
  have hkebab := h.bracket_not_mem_kebab
  have hhuman := Markup.bracket_not_mem_humanize h.nameChars
  have hitem : '<' ∉ m.record.toList := fun hmem => absurd (h.record _ hmem) (by decide)
  have hid := (not_mem_idExpression m).1
  have hrecord : ∀ r ∈ some m.record, '<' ∉ r.toList := by
    rintro r hr
    cases hr
    exact hitem
  have hparams : Silent ["type Props = \x7b params: Promise<\x7b id: string \x7d> \x7d;"] := silent_of_apart (by decide)
  have hlines : Silent ((recordLines m ("Edit" ++ m.names.pascalName ++ "Page")).drop 1) := by
    refine silent_of_not_mem ?_
    simp [recordLines, toString, String.toList_append, hone, hitem, hid]
  rw [editPage_eq]
  refine choices_page ?_ (silent_between ?_ ?_) (silent_foot ?_ ?_) hfields h.one hrecord
  · have himports : Silent ["import Link from \"next/link\";",
        "import \x7b notFound, redirect \x7d from \"next/navigation\";",
        "import \x7b get" ++ m.names.pascalName ++ ", update" ++ m.names.pascalName ++ newTypeImport m fields ++
          " \x7d from \"../../actions\";", ""] := by
      refine silent_of_not_mem ?_
      simp [String.toList_append, hone, himport]
    have haction : Silent ["  async function action(formData: FormData) \x7b", "    \"use server\";", "",
        (editShape m fields).callLine] := by
      refine silent_of_not_mem ?_
      simp [editShape, Shape.callLine, String.toList_append, hone, hid]
    exact (himports.append (hparams.append hlines)).append haction
  · exact offers_around (by decide) hkebab (by decide)
  · exact offers_around (by decide) hhuman (by decide)
  · exact offers_around (by decide) hhuman (by decide)
  · exact offers_around (by decide) hkebab (by decide)

/-! ## What escaping keeps in and what it lets out -/

/-- The options of a page are delimited and show what its fields offer: no value has a quote in it, no
child a bracket, and with their references replaced they are the values and their labels, in order. -/
structure Shows (fields : List Field) (page : String) : Prop where
  value : ∀ choice ∈ choices page.toList, '"' ∉ choice.value
  child : ∀ choice ∈ choices page.toList, '<' ∉ choice.child ∧ '>' ∉ choice.child
  decoded : (choices page.toList).map (fun choice => (decode choice.value, decode choice.child)) =
    (fields.flatMap offered).map fun entry => (entry.1.toList, entry.2.toList)

/-- No option of a page opens or closes code in its child. -/
def Codeless (page : String) : Prop := ∀ choice ∈ choices page.toList, '{' ∉ choice.child ∧ '}' ∉ choice.child

/-- No value of an enum has a brace in it. -/
def Unbraced (fields : List Field) : Prop :=
  ∀ field ∈ fields, ∀ value ∈ field.enumValues.getD [], '{' ∉ value.toList ∧ '}' ∉ value.toList

instance (fields : List Field) : Decidable (Unbraced fields) :=
  inferInstanceAs (Decidable (∀ field ∈ fields, ∀ value ∈ field.enumValues.getD [],
    '{' ∉ value.toList ∧ '}' ∉ value.toList))

theorem shows_of_choices {page : String} (h : choices page.toList = (fields.flatMap offered).map written) :
    Shows fields page where
  value := by
    simp only [h, List.forall_mem_map, written_value]
    exact fun entry _ => Markup.not_mem_markupText (by decide) (by decide) entry.1
  child := by
    simp only [h, List.forall_mem_map, written_child]
    exact fun entry _ => ⟨Markup.not_mem_markupText (by decide) (by decide) entry.2,
      Markup.not_mem_markupText (by decide) (by decide) entry.2⟩
  decoded := by
    simp only [h, List.map_map, Function.comp_def, written_value, written_child, decode_markupText]

theorem forall_offered_iff {p : String → Prop} (hnone : p "None") {field : Field}
    (hfield : Field.Accepted field) :
    (∀ entry ∈ offered field, p entry.2) ↔ ∀ value ∈ field.enumValues.getD [], p value := by
  unfold offered
  cases henum : field.isEnum with
  | false => simp [hfield.values henum]
  | true => cases field.nullable <;> simp [hnone]

theorem codeless_iff {page : String} (h : choices page.toList = (fields.flatMap offered).map written)
    (hfields : ∀ field ∈ fields, Field.Accepted field) : Codeless page ↔ Unbraced fields := by
  have hbraces : ∀ label : String, ('{' ∉ (markupText label).toList ∧ '}' ∉ (markupText label).toList) ↔
      '{' ∉ label.toList ∧ '}' ∉ label.toList := by
    intro label
    have hopen := Markup.mem_markupText_iff (d := '{') (by decide) label
    have hclose := Markup.mem_markupText_iff (d := '}') (by decide) label
    rw [and_iff_right (by decide)] at hopen hclose
    rw [hopen, hclose]
  simp only [Codeless, h, List.forall_mem_map, List.forall_mem_flatMap, written_child, hbraces]
  have hnone : '{' ∉ "None".toList ∧ '}' ∉ "None".toList := by decide
  exact forall₂_congr fun field hfield =>
    forall_offered_iff (p := fun label => '{' ∉ label.toList ∧ '}' ∉ label.toList) hnone (hfields field hfield)

/-- Whatever the values of the enums are, the options of both pages with a form show them, and each
stays between its quotes and its tags. They are free of code exactly if no value has a brace in it. -/
theorem options_codeless_iff {name : String} (hname : validateModelName name = .ok ())
    {definitions : List String} {fields : List Field} (hfields : Field.parseAll definitions = .ok fields)
    (project : Project) (options : TableOptions) :
    let m : Model := .of project (.of name) options
    ∀ page ∈ [newPage m fields, editPage m fields],
      Shows fields page ∧ (Codeless page ↔ Unbraced fields) := by
  intro m
  have hlegible := legible hname project options
  have haccepted := Field.parseAll_accepted hfields
  have hboth : ∀ page ∈ [newPage m fields, editPage m fields],
      choices page.toList = (fields.flatMap offered).map written :=
    List.forall_mem_cons.mpr ⟨choices_newPage hlegible haccepted,
      List.forall_mem_singleton.mpr (choices_editPage hlegible haccepted)⟩
  exact fun page hpage => ⟨shows_of_choices (hboth page hpage), codeless_iff (hboth page hpage) haccepted⟩

/-- Values that look like the end of an option, or like references, are shown as they are. -/
theorem options_codeless_iff_hostile :
    let definitions := ["status?:enum:\"><b>,</option>,&lt;,&"]
    let values := ["\"><b>", "</option>", "&lt;", "&"]
    let fields : List Field := [{ name := "status", type := .enum, nullable := true, enumValues := some values }]
    let project : Project := { root := [], layout := {}, dialect := .sqlite }
    let m : Model := .of project (.of "Post") {}
    (validateModelName "Post" = .ok () ∧ Field.parseAll definitions = .ok fields) ∧
      ∀ page ∈ [newPage m fields, editPage m fields],
        Codeless page ∧ (choices page.toList).map (fun choice => decode choice.value) =
          ("" :: values).map String.toList := by
  intro definitions values fields project m
  have hname : validateModelName "Post" = .ok () := rfl
  have hfields : Field.parseAll definitions = .ok fields := by decide +kernel
  refine ⟨⟨hname, hfields⟩, fun page hpage => ?_⟩
  obtain ⟨hshows, hcode⟩ := options_codeless_iff hname hfields project {} page hpage
  refine ⟨hcode.mpr (by decide), ?_⟩
  have hvalues := congrArg (List.map Prod.fst) hshows.decoded
  rw [List.map_map, List.map_map] at hvalues
  exact hvalues

/-- A value in braces is code in its option. -/
theorem options_not_codeless : ¬ ∀ (name : String) (definitions : List String) (fields : List Field)
    (project : Project) (options : TableOptions), validateModelName name = .ok () →
      Field.parseAll definitions = .ok fields →
        let m : Model := .of project (.of name) options
        ∀ page ∈ [newPage m fields, editPage m fields], Shows fields page ∧ Codeless page := by
  intro hall
  let fields : List Field := [{ name := "status", type := .enum, enumValues := some ["\x7ba\x7d"] }]
  let project : Project := { root := [], layout := {}, dialect := .sqlite }
  have hname : validateModelName "Post" = .ok () := rfl
  have hfields : Field.parseAll ["status:enum:\x7ba\x7d"] = .ok fields := by decide +kernel
  have haccepted := Field.parseAll_accepted hfields
  have hpage := hall "Post" _ fields project {} hname hfields _ List.mem_cons_self
  have hunbraced : Unbraced fields :=
    (codeless_iff (choices_newPage (legible hname project {}) haccepted) haccepted).mp hpage.2
  exact absurd hunbraced (by decide)

end SchemaScaffold.Generated.Selection
