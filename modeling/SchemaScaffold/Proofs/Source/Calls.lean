import SchemaScaffold.Proofs.Source.Words

/-!
Table calls at the end of a text. A text that ends a line can leave a table call open: the function
and its parenthesis are there, and a quote that nothing closes. Then the next quote of what follows
ends the name of that call. If no call is left open, the calls of both texts are read one after the
other.
-/

namespace SchemaScaffold.Source

open Text

/-- Whether one more quote would end the name of one more table call. -/
def leavesCallOpen (source : List Char) : Bool := tableNames (source ++ ['"']) != tableNames source

/-! ## Quoted names -/

theorem quoted?_eq_some {allowed : Char → Bool} {cs text rest : List Char}
    (h : quoted? allowed cs = some (text, rest)) : ∃ q q', allowed q = true ∧ allowed q' = true ∧
      (∀ c ∈ text, allowed c = false) ∧ text ≠ [] ∧ cs = q :: (text ++ q' :: rest) := by
  have hquote : ∀ {cs rest : List Char}, quote? allowed cs = some rest →
      ∃ q, allowed q = true ∧ cs = q :: rest := by
    intro cs rest h
    cases cs with
    | nil => cases h
    | cons c cs => exact ⟨c, by grind [quote?]⟩
  simp only [quoted?, Option.bind_eq_bind, Option.bind_eq_some_iff] at h
  obtain ⟨opened, h1, closed, h2, h3⟩ := h
  obtain ⟨q, hq, rfl⟩ := hquote h1
  obtain ⟨q', hq', he⟩ := hquote h2
  split at h3
  · cases h3
  · rename_i hne
    cases h3
    refine ⟨q, q', hq, hq', fun c hc => ?_, by simpa using hne, ?_⟩
    · simpa using List.all_eq_true.mp List.all_takeWhile c hc
    · rw [← he, List.takeWhile_append_dropWhile]

theorem quoted?_cons {allowed : Char → Bool} {q : Char} (hq : allowed q = true) (cs : List Char) :
    quoted? allowed (q :: cs) = (quote? allowed (cs.dropWhile (!allowed ·))).bind fun rest =>
      if (cs.takeWhile (!allowed ·)).isEmpty then none
      else some (cs.takeWhile (!allowed ·), rest) := by
  unfold quoted?
  rw [quote?, if_pos hq]
  rfl

theorem quoted?_of_quotes {allowed : Char → Bool} {q q' : Char} (hq : allowed q = true)
    (hq' : allowed q' = true) {text : List Char} (htext : ∀ c ∈ text, allowed c = false)
    (hne : text ≠ []) (rest : List Char) :
    quoted? allowed (q :: (text ++ q' :: rest)) = some (text, rest) := by
  have hall : ∀ c ∈ text, (!allowed c) = true := fun c hc => by simp [htext c hc]
  have hparts : (text ++ q' :: rest).takeWhile (!allowed ·) = text ∧
      (text ++ q' :: rest).dropWhile (!allowed ·) = q' :: rest := by
    rw [List.takeWhile_append_of_pos hall, List.dropWhile_append_of_pos hall]
    simp [hq']
  rw [quoted?_cons hq, hparts.1, hparts.2, quote?, if_pos hq', Option.bind_some, if_neg]
  simpa using hne

/-- Where another quote follows, a quoted name is read within the text, or not at all. -/
theorem quoted?_append {allowed : Char → Bool} {d c : Char} {t : List Char} (hc : c ∈ t)
    (hquote : allowed c = true) (b : List Char) : quoted? allowed (d :: t ++ b) =
      (quoted? allowed (d :: t)).map fun (text, rest) => (text, rest ++ b) := by
  obtain ⟨htake, hdrop, hne⟩ :=
    takeWhile_append_of_mem (p := (!allowed ·)) hc (by simp [hquote]) b
  obtain ⟨e, rest, he⟩ := List.exists_cons_of_ne_nil hne
  by_cases hd : allowed d = true
  · rw [List.cons_append, quoted?_cons hd, quoted?_cons hd, htake, hdrop, he, List.cons_append,
      quote?, quote?]
    by_cases hallowed : allowed e = true
    · rw [if_pos hallowed, if_pos hallowed, Option.bind_some, Option.bind_some]
      split <;> rfl
    · rw [if_neg hallowed, if_neg hallowed]
      rfl
  · simp [quoted?, quote?, hd]

/-! ## Table calls -/

theorem tableFunction?_function {function : List Char}
    (h : function ∈ tableFunctions.map String.toList) (rest : List Char) :
    tableFunction? (function ++ rest) = some rest := by
  simp only [tableFunctions, List.map_cons, List.map_nil, List.mem_cons, List.not_mem_nil,
    or_false] at h
  rcases h with rfl | rfl | rfl <;> rfl

theorem openCall?_eq {cs rest : List Char} (h : openCall? cs = some rest) :
    skipBlanks cs = '(' :: rest :=
  dropText?_eq h

theorem tableCall?_eq_some {cs name rest : List Char} (h : tableCall? cs = some (name, rest)) :
    ∃ a b, tableFunction? cs = some a ∧ openCall? a = some b ∧
      quoted? isQuote (skipBlanks b) = some (name, rest) := by
  simp only [tableCall?, Option.bind_eq_bind, Option.bind_eq_some_iff] at h
  obtain ⟨a, ha, b, hb, hq⟩ := h
  exact ⟨a, b, ha, hb, hq⟩

theorem skipBlanks_append_of_ne {a : List Char} (h : skipBlanks a ≠ []) (b : List Char) :
    skipBlanks (a ++ b) = skipBlanks a ++ b := by
  rw [skipBlanks, List.dropWhile_append, if_neg]
  · rfl
  · simpa [skipBlanks] using h

/-- Where the name of a table call is looked for. -/
theorem called_suffix {cs a b : List Char} (ha : tableFunction? cs = some a)
    (hb : openCall? a = some b) : skipBlanks b <:+ cs := by
  obtain ⟨function, -, rfl⟩ := tableFunction?_eq ha
  have hopen : '(' :: b <:+ a := openCall?_eq hb ▸ skipBlanks_suffix a
  exact (skipBlanks_suffix b).trans ((List.suffix_cons '(' b).trans
    (hopen.trans (List.suffix_append _ _)))

theorem tableCall?_suffix {cs name rest : List Char} (h : tableCall? cs = some (name, rest)) :
    rest <:+ cs := by
  obtain ⟨a, b, ha, hb, hq⟩ := tableCall?_eq_some h
  obtain ⟨q, q', -, -, -, -, he⟩ := quoted?_eq_some hq
  have hrest : rest <:+ skipBlanks b := by
    rw [he]
    exact ⟨q :: (name ++ [q']), by simp⟩
  exact hrest.trans (called_suffix ha hb)

/-- A table call is read the same in front of more text. -/
theorem tableCall?_append {a name rest : List Char} (h : tableCall? a = some (name, rest))
    (b : List Char) : tableCall? (a ++ b) = some (name, rest ++ b) := by
  obtain ⟨r, s, hr, hs, hq⟩ := tableCall?_eq_some h
  obtain ⟨function, hfunction, rfl⟩ := tableFunction?_eq hr
  have hopen : openCall? (r ++ b) = some (s ++ b) := by
    have hblanks : skipBlanks r = '(' :: s := openCall?_eq hs
    simp [openCall?, skipBlanks_append_of_ne (by simp [hblanks] : skipBlanks r ≠ []), hblanks,
      dropText?]
  obtain ⟨q, q', hq1, hq2, htext, hne, he⟩ := quoted?_eq_some hq
  have hname : quoted? isQuote (skipBlanks (s ++ b)) = some (name, rest ++ b) := by
    rw [skipBlanks_append_of_ne (by simp [he]), he, List.cons_append, List.append_assoc,
      List.cons_append]
    exact quoted?_of_quotes hq1 hq2 htext hne _
  simp only [tableCall?, Option.bind_eq_bind, List.append_assoc,
    tableFunction?_function hfunction, Option.bind_some, hopen, hname]

/-- Fewer than two quotes name no table. -/
theorem callNames_of_quotes {cs : List Char} (h : cs.countP isQuote < 2) : callNames cs = [] := by
  induction cs with
  | nil => rw [callNames]
  | cons c cs ih =>
    have hnone : tableCall? (c :: cs) = none := by
      rw [Option.eq_none_iff_forall_ne_some]
      rintro ⟨name, rest⟩ hcall
      obtain ⟨r, s, hr, hs, hq⟩ := tableCall?_eq_some hcall
      obtain ⟨q, q', hq1, hq2, -, -, he⟩ := quoted?_eq_some hq
      have hsuffix : q :: (name ++ q' :: rest) <:+ c :: cs := he ▸ called_suffix hr hs
      have := hsuffix.sublist.countP_le (p := isQuote)
      simp only [List.countP_cons, List.countP_append, hq1, hq2, if_true] at this h
      omega
    rw [callNames_none hnone]
    refine ih (Nat.lt_of_le_of_lt ?_ h)
    exact (List.sublist_cons_self c cs).countP_le

/-! ## A call left open -/

/-- The text before its first quote and after it. It starts neither with a blank nor with a
parenthesis, and with the quote only if nothing follows. -/
structure FirstQuote (x y : List Char) : Prop where
  none : ∀ c ∈ x, isQuote c = false
  first : ∀ c, x.head? = some c → isBlank c = false ∧ c ≠ '('
  alone : x = [] → y = []

section FirstQuote

variable {x y : List Char} (h : FirstQuote x y)

include h

theorem FirstQuote.cons : ∃ c rest, x ++ '"' :: y = c :: rest ∧ c ≠ '(' ∧ isBlank c = false := by
  cases x with
  | nil => exact ⟨'"', y, rfl, by decide, by decide⟩
  | cons c x => exact ⟨c, x ++ '"' :: y, rfl, (h.first c rfl).symm⟩

theorem FirstQuote.skipBlanks (a : List Char) :
    Source.skipBlanks (a ++ (x ++ '"' :: y)) = Source.skipBlanks a ++ (x ++ '"' :: y) := by
  obtain ⟨c, rest, he, -, hblank⟩ := h.cons
  rw [he]
  exact dropWhile_append_of_head a hblank rest

theorem FirstQuote.openCall? (a : List Char) : Source.openCall? (a ++ (x ++ '"' :: y)) =
    (Source.openCall? a).map (· ++ (x ++ '"' :: y)) := by
  obtain ⟨c, rest, he, hparen, -⟩ := h.cons
  unfold Source.openCall?
  rw [h.skipBlanks]
  cases Source.skipBlanks a with
  | nil => simp [he, dropText?, Ne.symm hparen]
  | cons d a =>
    by_cases hd : d = '('
    · simp [hd, dropText?]
    · simp [dropText?, Ne.symm hd]

theorem FirstQuote.quoted? : Source.quoted? isQuote (x ++ '"' :: y) = Option.none := by
  cases x with
  | nil =>
    rw [h.alone rfl]
    rfl
  | cons c x =>
    have hc : isQuote c = false := h.none c (by simp)
    simp [Source.quoted?, quote?, hc]

end FirstQuote

theorem tableFunction?_endsLine {a : List Char} (ha : EndsLine a) (hne : a ≠ []) (b : List Char) :
    tableFunction? (a ++ b) = (tableFunction? a).map (· ++ b) := by
  have hlines : ∀ function ∈ tableFunctions, '\n' ∉ function.toList := by decide
  unfold tableFunction?
  generalize tableFunctions = functions at hlines
  induction functions with
  | nil => rfl
  | cons function functions ih =>
    rw [List.findSome?_cons, List.findSome?_cons, ha.dropText? (hlines function (by simp)) hne,
      ih fun other hother => hlines other (List.mem_cons_of_mem _ hother)]
    cases dropText? function.toList a <;> rfl

theorem not_isQuote_of_isBlank {c : Char} (h : isBlank c = true) : isQuote c = false := by
  rw [← Bool.not_eq_true]
  intro hquote
  simp only [isQuote, Bool.or_eq_true, beq_iff_eq] at hquote
  rcases hquote with (rfl | rfl) | rfl <;> exact absurd h (by decide)

/-- A table call up to its name holds no quote. -/
theorem countP_call {cs a b : List Char} (ha : tableFunction? cs = some a)
    (hb : openCall? a = some b) : cs.countP isQuote = (skipBlanks b).countP isQuote := by
  have hfunctions : ∀ function ∈ tableFunctions.map String.toList,
      function.countP isQuote = 0 := by decide
  have hskip : ∀ cs : List Char, cs.countP isQuote = (skipBlanks cs).countP isQuote := by
    intro cs
    have hblanks : (cs.takeWhile isBlank).countP isQuote = 0 :=
      List.countP_eq_zero.mpr fun c hc => by
        simpa using not_isQuote_of_isBlank (List.all_eq_true.mp List.all_takeWhile c hc)
    have hparts := congrArg (List.countP isQuote) (List.takeWhile_append_dropWhile (p := isBlank) (l := cs))
    rw [List.countP_append, hblanks, Nat.zero_add] at hparts
    exact hparts.symm
  obtain ⟨function, hfunction, rfl⟩ := tableFunction?_eq ha
  rw [List.countP_append, hfunctions function hfunction, hskip a, openCall?_eq hb, List.countP_cons,
    hskip b]
  simp [isQuote]

/-- Where a text is not quoted, it stays so in front of a quote, or that quote closes one that the text
begins with. -/
theorem quoted?_open {a : List Char} (ha : EndsLine a) (h : quoted? isQuote a = none) :
    (∀ x y, FirstQuote x y → quoted? isQuote (a ++ (x ++ '"' :: y)) = none) ∨
    ∃ t, '\n' ∈ t ∧ a.countP isQuote = 1 ∧
      ∀ x y, FirstQuote x y → quoted? isQuote (a ++ (x ++ '"' :: y)) = some (t ++ x, y) := by
  cases a with
  | nil => exact .inl fun x y hxy => by rw [List.nil_append, hxy.quoted?]
  | cons d t =>
    by_cases hquote : ∃ c ∈ t, isQuote c = true
    · obtain ⟨c, hc, hcq⟩ := hquote
      exact .inl fun x y _ => by rw [quoted?_append hc hcq, h]; rfl
    · by_cases hd : isQuote d = true
      · have hnone : ∀ c ∈ t, isQuote c = false := fun c hc => by
          simpa using fun hcq => hquote ⟨c, hc, hcq⟩
        have hline : '\n' ∈ t := by
          refine ha.mem_tail ?_
          rintro rfl
          cases hd
        refine .inr ⟨t, hline, ?_, fun x y hxy => ?_⟩
        · rw [List.countP_cons, List.countP_eq_zero.mpr (by simpa using hnone), hd]
          rfl
        · have htext : ∀ c ∈ t ++ x, isQuote c = false :=
            List.forall_mem_append.mpr ⟨hnone, hxy.none⟩
          rw [List.cons_append, ← List.append_assoc]
          refine quoted?_of_quotes hd (by decide) htext ?_ y
          rintro he
          simp [(List.append_eq_nil_iff.mp he).1] at hline
      · exact .inl fun x y _ => by simp [quoted?, quote?, hd]

/-- Where a text names no table, a following text is read on its own, or the text leaves a call open
that the first quote closes. -/
theorem tableCall?_open {a : List Char} (ha : EndsLine a) (hne : a ≠ []) (h : tableCall? a = none) :
    (∀ x y, FirstQuote x y → tableCall? (a ++ (x ++ '"' :: y)) = none) ∨
    ∃ t, '\n' ∈ t ∧ a.countP isQuote < 2 ∧
      ∀ x y, FirstQuote x y → tableCall? (a ++ (x ++ '"' :: y)) = some (t ++ x, y) := by
  cases hr : tableFunction? a with
  | none =>
    exact .inl fun x y _ => by simp [tableCall?, tableFunction?_endsLine ha hne, hr]
  | some r =>
    cases hs : openCall? r with
    | none =>
      exact .inl fun x y hxy => by simp [tableCall?, tableFunction?_endsLine ha hne, hr,
        hxy.openCall?, hs]
    | some s =>
      have hcall : ∀ x y, FirstQuote x y → tableCall? (a ++ (x ++ '"' :: y)) =
          quoted? isQuote (skipBlanks s ++ (x ++ '"' :: y)) := by
        intro x y hxy
        simp [tableCall?, tableFunction?_endsLine ha hne, hr, hxy.openCall?, hs, hxy.skipBlanks]
      have hquoted : quoted? isQuote (skipBlanks s) = none := by
        simpa [tableCall?, hr, hs] using h
      rcases quoted?_open (ha.suffix (called_suffix hr hs)) hquoted with hnone | ⟨t, hline, hone, hsome⟩
      · exact .inl fun x y hxy => (hcall x y hxy).trans (hnone x y hxy)
      · refine .inr ⟨t, hline, ?_, fun x y hxy => (hcall x y hxy).trans (hsome x y hxy)⟩
        rw [countP_call hr hs, hone]
        decide

/-- A text that ends a line either leaves no call open, and a following text names its tables on its
own; or what follows up to the first quote ends the name of a call. -/
theorem callNames_append {a : List Char} (ha : EndsLine a) :
    (∀ x y, FirstQuote x y →
      callNames (a ++ (x ++ '"' :: y)) = callNames a ++ callNames (x ++ '"' :: y)) ∨
    ∃ t, '\n' ∈ t ∧ ∀ x y, FirstQuote x y →
      callNames (a ++ (x ++ '"' :: y)) = callNames a ++ (t ++ x) :: callNames y := by
  match a with
  | [] => exact .inl fun x y _ => by simp [callNames]
  | c :: a =>
    cases hcall : tableCall? (c :: a) with
    | some call =>
      obtain ⟨name, rest⟩ := call
      have hlength : rest.length ≤ a.length := Nat.le_of_lt_succ (tableCall?_length hcall)
      have hrest : EndsLine rest := ha.suffix (tableCall?_suffix hcall)
      have hsome := fun b => callNames_some (tableCall?_append hcall b)
      rcases callNames_append hrest with hnone | ⟨t, ht, hopen⟩
      · exact .inl fun x y hxy => by
          rw [hsome, callNames_some hcall, hnone x y hxy, List.cons_append]
      · exact .inr ⟨t, ht, fun x y hxy => by
          rw [hsome, callNames_some hcall, hopen x y hxy, List.cons_append]⟩
    | none =>
      rcases tableCall?_open ha (by simp) hcall with hnone | ⟨t, ht, hcount, hopen⟩
      · rcases callNames_append ha.tail with htail | ⟨t, ht, htail⟩
        · exact .inl fun x y hxy => by
            rw [List.cons_append, callNames_none (by exact hnone x y hxy), callNames_none hcall,
              htail x y hxy]
        · exact .inr ⟨t, ht, fun x y hxy => by
            rw [List.cons_append, callNames_none (by exact hnone x y hxy), callNames_none hcall,
              htail x y hxy]⟩
      · exact .inr ⟨t, ht, fun x y hxy => by
          rw [callNames_some (hopen x y hxy), callNames_of_quotes hcount, List.nil_append]⟩
termination_by a.length

end SchemaScaffold.Source
