import SchemaScaffold.Proofs.Source.Located
import SchemaScaffold.Proofs.Source.Squeezing

/-!
The tables that a removal leaves. A removal cuts out the declaration of the table and those of its
enums, one after the other, and squeezes the line breaks of the whole text. A declaration that no cut
touches is still the one that is found, with the same text; squeezing then changes that text exactly
if it holds a run of three line breaks, as a template literal may.
-/

namespace SchemaScaffold.Source

open Text

/-! ## The cuts of a removal -/

/-- The enum declaration that is taken out of a text, if nothing else mentions its variable. -/
def removedEnum? (text enumName : List Char) : Option Span :=
  match declarationSpan (enumDeclaration? enumName) text text with
  | .ok (some span) => if mentions enumName (span.remove text) then none else some span
  | _ => none

/-- The enum declarations that are taken out, each with the text that it is taken out of. -/
def enumCuts : List (List Char) → List Char → List (List Char × Span)
  | [], _ => []
  | enumName :: enumNames, text =>
    match removedEnum? text enumName with
    | some span => (text, span) :: enumCuts enumNames (span.remove text)
    | none => enumCuts enumNames text

/-- All that the removal of a table takes out, each with the text that it is taken out of. -/
def cuts (source name : List Char) : List (List Char × Span) :=
  match locateTable source name with
  | .ok (some span) =>
    (source, span) :: enumCuts (enumVariables (span.cut source)) (span.remove source)
  | _ => []

/-- A cut that touches no declaration of a table. -/
structure Clear (name text : List Char) (cut : Span) : Prop where
  /-- The comments of the text are those of what is left of it. -/
  comments : mask (cut.remove text) = cut.remove (mask text)
  /-- No declaration of the table goes over the cut. -/
  within : ∀ behind ∈ [(mask text).drop cut.start, (mask text).drop cut.stop],
    ReadsWithin (tableDeclaration? name) ((mask text).take cut.start) behind
  /-- What follows on the line where the cut ends does not declare the table. -/
  line : EndsLine ((mask text).take cut.stop) ∨
    tableDeclaration? name ((mask text).drop cut.stop) = none
  /-- The declaration of the table does not overlap with the cut. -/
  apart : ∀ span ∈ (locateTable text name).toOption.join,
    span.stop ≤ cut.start ∨ cut.stop ≤ span.start

instance (read : List Char → Option (List Char)) (a b : List Char) : Decidable (ReadsWithin read a b) :=
  inferInstanceAs (Decidable (∀ x ∈ lineStarts true a, read (x ++ b) = (read x).map (· ++ b)))

instance (name text : List Char) (cut : Span) : Decidable (Clear name text cut) :=
  decidable_of_iff
    (mask (cut.remove text) = cut.remove (mask text) ∧
      (∀ behind ∈ [(mask text).drop cut.start, (mask text).drop cut.stop],
        ReadsWithin (tableDeclaration? name) ((mask text).take cut.start) behind) ∧
      (EndsLine ((mask text).take cut.stop) ∨
        tableDeclaration? name ((mask text).drop cut.stop) = none) ∧
      ∀ span ∈ (locateTable text name).toOption.join,
        span.stop ≤ cut.start ∨ cut.stop ≤ span.start)
    ⟨fun ⟨h1, h2, h3, h4⟩ => ⟨h1, h2, h3, h4⟩, fun ⟨h1, h2, h3, h4⟩ => ⟨h1, h2, h3, h4⟩⟩

/-! ## What is left of a text -/

/-- The table is declared in a text, with this block. -/
def Declares (text name block : List Char) : Prop :=
  ∃ front lead body terminator back, block = lead ++ (body ++ terminator) ∧
    Located (tableDeclaration? name) (mask text) text front lead body terminator back

theorem Span.cut_mid (front block back : List Char) :
    (Span.mk front.length (front ++ block).length).cut (front ++ (block ++ back)) = block := by
  rw [Span.cut, List.drop_left, List.length_append, Nat.add_sub_cancel_left, List.take_left]

theorem Span.remove_mid (front block back : List Char) :
    (Span.mk front.length (front ++ block).length).remove (front ++ (block ++ back)) = front ++ back := by
  rw [Span.remove, List.take_left, ← List.append_assoc, List.drop_left]

/-- The block of a table is the text of its declaration. -/
theorem tableBlock?_iff {text name block : List Char} :
    tableBlock? text name = .ok (some block) ↔ Declares text name block := by
  constructor
  · intro h
    obtain ⟨span?, hlocate, hspan⟩ := map_ok h
    obtain ⟨span, rfl, rfl⟩ := Option.map_eq_some_iff.mp hspan
    obtain ⟨front, lead, body, terminator, back, hlocated, rfl⟩ :=
      exists_located (reader_tableDeclaration name) (covers_mask text) (locateTable_iff.mp hlocate)
    refine ⟨front, lead, body, terminator, back, ?_, hlocated⟩
    rw [hlocated.text_eq]
    simpa using Span.cut_mid front (lead ++ (body ++ terminator)) back
  · rintro ⟨front, lead, body, terminator, back, rfl, hlocated⟩
    have hspan := locateTable_iff.mpr (hlocated.declarationSpan (mask_length text))
    have hcut := Span.cut_mid front (lead ++ (body ++ terminator)) back
    rw [tableBlock?, hspan, Except.map, Option.map_some, hlocated.text_eq]
    simp only [List.append_assoc] at hcut
    rw [hcut]

/-- Where a span is found, the text before it ends a line. -/
theorem exists_pieces {read : List Char → Option (List Char)} {shown text : List Char}
    (hread : DeclarationReader read) (hcovers : Covers shown text) {span : Span}
    (h : declarationSpan read shown text = .ok (some span)) :
    ∃ front block back, text = front ++ (block ++ back) ∧ EndsLine front ∧
      span = ⟨front.length, (front ++ block).length⟩ := by
  obtain ⟨front, lead, body, terminator, back, hlocated, rfl⟩ := exists_located hread hcovers h
  exact ⟨front, lead ++ (body ++ terminator), back, by simpa using hlocated.text_eq,
    hlocated.endsLine hread hcovers, rfl⟩

theorem mask_pieces (front piece back : List Char) : ∃ a b c,
    mask (front ++ (piece ++ back)) = a ++ (b ++ c) ∧ a.length = front.length ∧
      b.length = piece.length := by
  have hlength := mask_length (front ++ (piece ++ back))
  generalize mask (front ++ (piece ++ back)) = m at hlength
  refine ⟨m.take front.length, (m.drop front.length).take piece.length,
    (m.drop front.length).drop piece.length, ?_, ?_, ?_⟩
  · rw [List.take_append_drop, List.take_append_drop]
  · simp only [List.length_take, List.length_append] at hlength ⊢
    omega
  · simp only [List.length_take, List.length_drop, List.length_append] at hlength ⊢
    omega

/-- What a clear cut says about the pieces of the masked text. -/
theorem Clear.parts {name front piece back a b c : List Char}
    (h : Clear name (front ++ (piece ++ back)) ⟨front.length, (front ++ piece).length⟩)
    (hmask : mask (front ++ (piece ++ back)) = a ++ (b ++ c)) (ha : a.length = front.length)
    (hb : b.length = piece.length) : mask (front ++ back) = a ++ c ∧
      ReadsWithin (tableDeclaration? name) a (b ++ c) ∧ ReadsWithin (tableDeclaration? name) a c ∧
        (EndsLine b ∨ tableDeclaration? name c = none) := by
  have hstop : (front ++ piece).length = (a ++ b).length := by simp [ha, hb]
  have hcomments := h.comments
  rw [Span.remove_mid, hmask, ← ha, hstop, Span.remove_mid] at hcomments
  have htake : (a ++ (b ++ c)).take (a ++ b).length = a ++ b := by
    rw [← List.append_assoc, List.take_left]
  have hdrop : (a ++ (b ++ c)).drop (a ++ b).length = c := by
    rw [← List.append_assoc, List.drop_left]
  have hwithin := h.within
  have hline := h.line
  rw [hmask, hstop, ← ha, List.take_left, List.drop_left, hdrop, List.forall_mem_cons,
    List.forall_mem_singleton] at hwithin
  rw [hmask, hstop, htake, hdrop] at hline
  exact ⟨hcomments, hwithin.1, hwithin.2, hline.imp_left EndsLine.right⟩

/-- A clear cut leaves a table as it is. -/
theorem Declares.cut {name block front piece back : List Char} (hline : EndsLine front)
    (h : Declares (front ++ (piece ++ back)) name block)
    (hclear : Clear name (front ++ (piece ++ back)) ⟨front.length, (front ++ piece).length⟩) :
    Declares (front ++ back) name block := by
  obtain ⟨front', lead, body, terminator, back', rfl, hlocated⟩ := h
  obtain ⟨a, b, c, hmask, ha, hb⟩ := mask_pieces front piece back
  obtain ⟨hleft, hbehind, hwithin, hnext⟩ := hclear.parts hmask ha hb
  have hstarts : EndsLine a := by
    have hbreaks := mask_breaks (front ++ (piece ++ back))
    simp only [hmask, List.map_append] at hbreaks
    exact endsLine_of_breaks (List.append_inj hbreaks (by simp [ha])).1.symm hline
  have hspan := locateTable_iff.mpr (hlocated.declarationSpan (mask_length _))
  have hapart := hclear.apart _ (by rw [hspan]; rfl)
  rw [hmask] at hlocated
  rw [Declares, hleft]
  rcases hapart with hfits | hfits
  · obtain ⟨more, hmore⟩ := hlocated.behind ha hstarts hline hfits hbehind hwithin back
    exact ⟨_, _, _, _, _, rfl, hmore⟩
  · obtain ⟨more, hmore⟩ := hlocated.before ha hb hstarts hfits hbehind hwithin hnext
    exact ⟨_, _, _, _, _, rfl, hmore⟩

theorem squeezeBreaks_of_head {s : List Char} (h : s.head?.any (· != '\n') = true) (kept : Nat) :
    squeezeBreaks kept s = squeezeBreaks 0 s := by
  cases s with
  | nil => cases h
  | cons c s =>
    have hc : c ≠ '\n' := by simpa using h
    rw [squeezeBreaks_cons hc, squeezeBreaks_cons hc]

theorem head_of_breaks {a b : List Char} (h : a.map (· == '\n') = b.map (· == '\n'))
    (ha : a.head?.any (· != '\n') = true) : b.head?.any (· != '\n') = true := by
  cases a with
  | nil => cases ha
  | cons c a =>
    cases b with
    | nil => cases h
    | cons d b =>
      have hcd : (c == '\n') = (d == '\n') := (List.cons.inj h).1
      simpa [bne, ← hcd] using ha

/-- Squeezing around a piece that starts within a line. -/
theorem squeezeBreaks_around {piece : List Char} (h : piece.head?.any (· != '\n') = true)
    (front back : List Char) : squeezeBreaks 0 (front ++ (piece ++ back)) =
      squeezeBreaks 0 front ++ (squeezeBreaks 0 piece ++ squeezeBreaks (breaksAfter 0 piece) back) := by
  have hne : piece ≠ [] := by
    rintro rfl
    cases h
  rw [squeezeBreaks_pieces, squeezeBreaks_of_head (s := piece ++ back) (by rwa [head?_append_of_ne hne]),
    squeezeBreaks_pieces 0 piece]

/-- Whatever is squeezed behind a terminator, it still stops there. -/
theorem Terminates.squeeze {terminator rest : List Char} (h : Terminates terminator rest) (kept : Nat) :
    Terminates terminator (squeezeBreaks kept rest) := by
  cases rest with
  | nil => exact h
  | cons c rest =>
    refine h.congr ?_
    by_cases hc : c = '\n'
    · rw [hc] at h
      exact .inl h.break
    · exact .inr (by rw [squeezeBreaks_cons hc]; rfl)

/-- Where the declaration is found in the squeezed text, if squeezing leaves its lead as it is. -/
theorem Located.found_squeezed {name text front lead body terminator back : List Char}
    (h : Located (tableDeclaration? name) (mask text) text front lead body terminator back)
    (hname : ¬ ['\n', '\n'] <:+: name) (hsame : squeezeBreaks 0 lead = lead) :
    atLineStart? (tableDeclaration? name) true (mask (squeezeBreaks 0 text)) =
      some ((squeezeBreaks 0 front).length,
        (mask (squeezeBreaks 0 text)).drop ((squeezeBreaks 0 front).length + lead.length)) := by
  have hreader := reader_tableDeclaration name
  obtain ⟨front', lead', after, hshow, hfront, hlead, hhead⟩ := h.shown_eq hreader (covers_mask text)
  have hsqueezed := squeezeBreaks_around hhead front' ('(' :: after)
  rw [squeezeBreaks_of_head (s := '(' :: after) rfl] at hsqueezed
  have hlength : front'.length = front.length ∧ lead'.length = lead.length :=
    ⟨by simpa using congrArg List.length hfront, by simpa using congrArg List.length hlead⟩
  have hplace : (squeezeBreaks 0 front').length = (squeezeBreaks 0 front).length ∧
      (squeezeBreaks 0 lead').length = lead.length :=
    ⟨squeezeBreaks_length hfront 0, (squeezeBreaks_length hlead 0).trans (congrArg _ hsame)⟩
  have hfound := h.found
  rw [hshow, ← hlength.1, ← hlength.2, List.drop_length_add_append, List.drop_left] at hfound
  rw [mask_squeeze, hshow, atLineStart?_squeeze hreader.atBreak (tableDeclaration?_squeeze hname)
    (fun _ => rfl), hfound, hsqueezed, ← hplace.1, ← hplace.2, List.drop_length_add_append,
    List.drop_left, Option.map_some]
  simp only [List.take_left]

/-- Squeezing leaves a table as it is, if its block holds no run of line breaks. -/
theorem Declares.squeeze {text name block : List Char} (hname : ¬ ['\n', '\n'] <:+: name)
    (hrun : ¬ Run <:+: block) (h : Declares text name block) :
    Declares (squeezeBreaks 0 text) name block := by
  obtain ⟨front, lead, body, terminator, back, rfl, hlocated⟩ := h
  obtain ⟨front', lead', after, -, -, hlead, hhead⟩ :=
    hlocated.shown_eq (reader_tableDeclaration name) (covers_mask text)
  have hsame : squeezeBreaks 0 lead = lead := squeezeBreaks_of_no_run (Nat.zero_le 2) fun hin =>
    hrun (hin.trans (List.prefix_append _ _).isInfix)
  have hblock : squeezeBreaks 0 (lead ++ (body ++ terminator)) = lead ++ (body ++ terminator) :=
    squeezeBreaks_of_no_run (Nat.zero_le 2) hrun
  have hstart : (lead ++ (body ++ terminator)).head?.any (· != '\n') = true := by
    have hhead := head_of_breaks hlead hhead
    rwa [head?_append_of_ne (by rintro rfl; cases hhead)]
  have haround := squeezeBreaks_around hstart front back
  rw [hblock] at haround
  have htext : squeezeBreaks 0 text = squeezeBreaks 0 front ++ (lead ++ (body ++ (terminator ++
      squeezeBreaks (breaksAfter 0 (lead ++ (body ++ terminator))) back))) := by
    rw [hlocated.text_eq]
    simpa using haround
  exact ⟨_, lead, body, terminator, _, rfl, htext, hlocated.found_squeezed hname hsame,
    hlocated.isBlock, hlocated.terminates.squeeze _⟩

/-! ## Removal -/

theorem removeEnum_eq (text enumName : List Char) {rest : List Char}
    (h : removeEnum text enumName = .ok rest) :
    rest = ((removedEnum? text enumName).map (·.remove text)).getD text := by
  obtain ⟨span?, hspan, h⟩ := bind_ok h
  rw [removedEnum?, hspan]
  cases span? with
  | none =>
    cases h
    rfl
  | some span =>
    by_cases hmentions : mentions enumName (span.remove text) = true
    · simp only [hmentions, if_true] at h ⊢
      cases h
      rfl
    · simp only [hmentions] at h ⊢
      cases h
      rfl

theorem removedEnum?_eq_some {text enumName : List Char} {span : Span}
    (h : removedEnum? text enumName = some span) :
    declarationSpan (enumDeclaration? enumName) text text = .ok (some span) := by
  rw [removedEnum?] at h
  split at h
  · rename_i hfound
    split at h
    · cases h
    · rw [hfound, Option.some.inj h]
  · cases h

/-- Enum declarations are taken out one after the other, and a table that no cut touches stays. -/
theorem Declares.removeEnums {name block : List Char} {enumNames : List (List Char)}
    {text rest : List Char} (h : Declares text name block)
    (hremoved : enumNames.foldlM removeEnum text = .ok rest)
    (hclear : ∀ cut ∈ enumCuts enumNames text, Clear name cut.1 cut.2) :
    Declares rest name block := by
  induction enumNames generalizing text with
  | nil =>
    cases hremoved
    exact h
  | cons enumName enumNames ih =>
    rw [List.foldlM_cons] at hremoved
    obtain ⟨next, hnext, hrest⟩ := bind_ok hremoved
    have hresult := removeEnum_eq text enumName hnext
    rw [enumCuts] at hclear
    cases hspan : removedEnum? text enumName with
    | none =>
      rw [hspan] at hresult hclear
      obtain rfl : next = text := hresult
      exact ih h hrest hclear
    | some span =>
      rw [hspan] at hresult hclear
      obtain rfl : next = span.remove text := hresult
      obtain ⟨hfirst, hmore⟩ := List.forall_mem_cons.mp hclear
      refine ih ?_ hrest hmore
      obtain ⟨front, piece, back, rfl, hline, rfl⟩ := exists_pieces (reader_enumDeclaration enumName)
        (Covers.refl text) (removedEnum?_eq_some hspan)
      rw [Span.remove_mid]
      exact h.cut hline hfirst

/-- Removing a table leaves every other table that no cut touches: its block is the same, character
for character, exactly if the block holds no run of three line breaks. -/
theorem removeTable_keeps_block_iff {source name other removed block rest : List Char}
    (hremoved : tableBlock? source name = .ok (some removed))
    (hblock : tableBlock? source other = .ok (some block)) (h : removeTable source name = .ok rest)
    (hother : ¬ ['\n', '\n'] <:+: other) (hclear : ∀ cut ∈ cuts source name, Clear other cut.1 cut.2) :
    tableBlock? rest other = .ok (some block) ↔ ¬ ['\n', '\n', '\n'] <:+: block := by
  obtain ⟨span?, hlocate, hspan⟩ := map_ok hremoved
  obtain ⟨span, rfl, rfl⟩ := Option.map_eq_some_iff.mp hspan
  rw [removeTable, hlocate] at h
  obtain ⟨found, hfound, h⟩ := bind_ok h
  cases hfound
  obtain ⟨left, hleft, h⟩ := bind_ok h
  cases h
  rw [cuts, hlocate] at hclear
  obtain ⟨hfirst, hmore⟩ := List.forall_mem_cons.mp hclear
  have hleaves : Declares left other block := by
    refine Declares.removeEnums ?_ hleft hmore
    obtain ⟨front, piece, back, rfl, hline, rfl⟩ := exists_pieces (reader_tableDeclaration name)
      (covers_mask source) (locateTable_iff.mp hlocate)
    rw [Span.remove_mid]
    exact (tableBlock?_iff.mp hblock).cut hline hfirst
  constructor
  · intro hsame hrun
    obtain ⟨front, lead, body, terminator, back, rfl, hlocated⟩ := tableBlock?_iff.mp hsame
    refine no_run_squeezeBreaks (Nat.zero_le 2) left (hrun.trans ?_)
    rw [List.replicate_zero, List.nil_append, hlocated.text_eq]
    exact ⟨front, back, by simp⟩
  · exact fun hrun => tableBlock?_iff.mpr (hleaves.squeeze hother hrun)

/-- The table goes with its enum, and the other one keeps its note of two paragraphs. -/
theorem removeTable_keeps_block_iff_enum :
    let kinds := "export const kindEnum = pgEnum(\"kind\", [\"a\"]);\n\n".toList
    let comment := "/* a post \x7b */\n".toList
    let posts := "export const posts = pgTable(\"posts\", \x7b kind: kindEnum() \x7d);\n".toList
    let users := ("export const users = pgTable(\"users\", \x7b\n" ++
      "  note: text().default(\x60one\n\ntwo\x60),\n\x7d);\n").toList
    let source := kinds ++ (comment ++ (posts ++ ('\n' :: users)))
    let rest := '\n' :: (comment ++ ('\n' :: users))
    removeTable source "posts".toList = .ok rest ∧ (cuts source "posts".toList).length = 2 ∧
      tableBlock? rest "users".toList = .ok (some users) := by
  intro kinds comment posts users source rest
  have hposts : tableBlock? source "posts".toList = .ok (some posts) := by decide +kernel
  have husers : tableBlock? source "users".toList = .ok (some users) := by decide +kernel
  have hremoved : removeTable source "posts".toList = .ok rest := by decide +kernel
  have hclear : ∀ cut ∈ cuts source "posts".toList, Clear "users".toList cut.1 cut.2 := by
    decide +kernel
  have hplain : ¬ ['\n', '\n'] <:+: "users".toList ∧ ¬ ['\n', '\n', '\n'] <:+: users := by
    decide +kernel
  exact ⟨hremoved, by decide +kernel,
    (removeTable_keeps_block_iff hposts husers hremoved hplain.1 hclear).mpr hplain.2⟩

/-- A run of line breaks in a literal of the other table is squeezed too. -/
theorem removeTable_squeezes_literal :
    let a := "export const a = sqliteTable(\"a\", \x7b\x7d);\n".toList
    let b := "export const b = sqliteTable(\"b\", \x7b n: text(\x60x\n\n\ny\x60) \x7d);\n".toList
    let squeezed := "export const b = sqliteTable(\"b\", \x7b n: text(\x60x\n\ny\x60) \x7d);\n".toList
    tableNames (a ++ b) = ["a", "b"] ∧ tableBlock? (a ++ b) "a".toList = .ok (some a) ∧
      tableBlock? (a ++ b) "b".toList = .ok (some b) ∧
      removeTable (a ++ b) "a".toList = .ok squeezed ∧
      tableBlock? squeezed "b".toList = .ok (some squeezed) ∧ squeezed ≠ b := by
  decide +kernel

end SchemaScaffold.Source
