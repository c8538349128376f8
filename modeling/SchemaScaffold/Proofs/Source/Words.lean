import SchemaScaffold.Proofs.Source.Lines

/-!
Words, read character by character. A word is called when an opening parenthesis follows it, blanks
in between or not. A reader of words is between two words, in one, or at the blanks after one; so the
calls of a text that is made of pieces are those of its pieces, as long as each piece ends between
two words.
-/

namespace SchemaScaffold.Source

open Text

theorem not_isWordChar_of_isBlank {c : Char} (h : isBlank c = true) : isWordChar c = false := by
  have hall : blankRanges.all (fun range =>
      (List.range' range.1 (range.2 + 1 - range.1)).all fun n => !isWordChar (Char.ofNat n)) = true := by
    decide +kernel
  obtain ⟨⟨first, last⟩, hrange, hin⟩ := List.any_eq_true.mp h
  simp only [Bool.and_eq_true, decide_eq_true_eq] at hin
  have hc := List.all_eq_true.mp (List.all_eq_true.mp hall _ hrange) c.toNat
    (List.mem_range'_1.mpr (by omega))
  simpa [Char.ofNat_toNat] using hc

/-- A word, and whether it is called. -/
abbrev Use := List Char × Bool

/-- Where a reader of words stands. -/
inductive Place
  | between
  | within (word : List Char)
  | past (word : List Char)
  deriving DecidableEq

/-- One character read: the use that it completes, and where the reader stands after it. -/
def Place.step : Place → Char → List Use × Place
  | .between, c => ([], if isWordChar c then .within [c] else .between)
  | .within word, c =>
    if isWordChar c then ([], .within (word ++ [c]))
    else if isBlank c then ([], .past word)
    else ([(word, c == '(')], .between)
  | .past word, c =>
    if isWordChar c then ([(word, false)], .within [c])
    else if isBlank c then ([], .past word)
    else ([(word, c == '(')], .between)

/-- The uses that reading a text completes, and where the reader stands after it. -/
def follow : Place → List Char → List Use × Place
  | p, [] => ([], p)
  | p, c :: cs => ((p.step c).1 ++ (follow (p.step c).2 cs).1, (follow (p.step c).2 cs).2)

theorem follow_append (p : Place) (a b : List Char) : follow p (a ++ b) =
    ((follow p a).1 ++ (follow (follow p a).2 b).1, (follow (follow p a).2 b).2) := by
  induction a generalizing p with
  | nil => rfl
  | cons c a ih => simp only [List.cons_append, follow, ih, List.append_assoc]

/-! ## Readings -/

/-- Reading a text leads from one place to the other, and completes the uses that are looked for. -/
structure Follows (mark : Use → Bool) (p : Place) (s : List Char) (found : List Use) (q : Place) :
    Prop where
  found : (follow p s).1.filter mark = found
  place : (follow p s).2 = q

/-- A text that is read from between two words to between two words. -/
abbrev Passage (mark : Use → Bool) (s : List Char) (found : List Use) : Prop :=
  Follows mark .between s found .between

section Passage

variable {mark : Use → Bool}

theorem Follows.nil (p : Place) : Follows mark p [] [] p := ⟨rfl, rfl⟩

theorem Follows.append {p q r : Place} {a b : List Char} {found found' : List Use}
    (ha : Follows mark p a found q) (hb : Follows mark q b found' r) :
    Follows mark p (a ++ b) (found ++ found') r where
  found := by rw [follow_append, ha.place, List.filter_append, ha.found, hb.found]
  place := by rw [follow_append, ha.place, hb.place]

/-- A piece without anything to find before another. -/
theorem Follows.append_nil {p q r : Place} {a b : List Char} {found : List Use}
    (ha : Follows mark p a [] q) (hb : Follows mark q b found r) :
    Follows mark p (a ++ b) found r :=
  ha.append hb

/-- A piece without anything to find after another. -/
theorem Follows.append_quiet {p q r : Place} {a b : List Char} {found : List Use}
    (ha : Follows mark p a found q) (hb : Follows mark q b [] r) :
    Follows mark p (a ++ b) found r := by
  simpa using ha.append hb

/-- Who looks for less finds nothing either. -/
theorem Follows.mono {mark' : Use → Bool} (h : ∀ u, mark' u = true → mark u = true) {p q : Place}
    {s : List Char} (hs : Follows mark p s [] q) : Follows mark' p s [] q where
  found := List.filter_eq_nil_iff.mpr fun u hu hfound =>
    List.filter_eq_nil_iff.mp hs.found u hu (h u hfound)
  place := hs.place

theorem Passage.flatMap {α : Type} {f : α → List Char} {found : α → List Use} {as : List α}
    (h : ∀ a ∈ as, Passage mark (f a) (found a)) : Passage mark (as.flatMap f) (as.flatMap found) := by
  induction as with
  | nil => exact .nil _
  | cons a as ih =>
    rw [List.flatMap_cons, List.flatMap_cons]
    exact (h a (by simp)).append (ih fun b hb => h b (List.mem_cons_of_mem _ hb))

/-- A character that ends every word, and calls none. -/
def isStop (c : Char) : Bool := !isWordChar c && !isBlank c && !(c == '(')

theorem follow_word {word name : List Char} (h : ∀ c ∈ name, isWordChar c = true) :
    follow (.within word) name = ([], .within (word ++ name)) := by
  induction name generalizing word with
  | nil => simp [follow]
  | cons c name ih =>
    have hc : isWordChar c = true := h c (by simp)
    simp [follow, Place.step, hc, ih fun d hd => h d (List.mem_cons_of_mem _ hd)]

theorem follow_name {name : List Char} (h : ∀ c ∈ name, isWordChar c = true) (hne : name ≠ []) :
    follow .between name = ([], .within name) := by
  cases name with
  | nil => exact absurd rfl hne
  | cons c name =>
    have hc : isWordChar c = true := h c (by simp)
    simp [follow, Place.step, hc, follow_word fun d hd => h d (List.mem_cons_of_mem _ hd)]

/-- A word that is called. -/
theorem passage_call {name : List Char} (h : ∀ c ∈ name, isWordChar c = true) (hne : name ≠ []) :
    Passage mark (name ++ ['(']) ([(name, true)].filter mark) := by
  have hread : follow .between (name ++ ['(']) = ([(name, true)], .between) := by
    rw [follow_append, follow_name h hne]
    rfl
  exact ⟨by rw [hread], by rw [hread]⟩

/-- A word that is not called. -/
theorem passage_named {name : List Char} (h : ∀ c ∈ name, isWordChar c = true) (hne : name ≠ [])
    {stop : Char} (hstop : isStop stop = true) :
    Passage mark (name ++ [stop]) ([(name, false)].filter mark) := by
  have hread : follow .between (name ++ [stop]) = ([(name, false)], .between) := by
    simp only [isStop, Bool.and_eq_true, Bool.not_eq_true'] at hstop
    rw [follow_append, follow_name h hne]
    simp [follow, Place.step, hstop]
  exact ⟨by rw [hread], by rw [hread]⟩

/-- A text up to a character that ends every word is read to between two words. -/
theorem follow_stop (p : Place) (s : List Char) {stop : Char} (h : isStop stop = true) :
    (follow p (s ++ [stop])).2 = .between := by
  simp only [isStop, Bool.and_eq_true, Bool.not_eq_true'] at h
  rw [follow_append]
  cases (follow p s).2 <;> simp [follow, Place.step, h]

/-- The word that a reader is at stands in the text it has read. -/
def Place.In (front : List Char) : Place → Prop
  | .between => True
  | .within word => word <:+ front
  | .past word => word <:+: front

theorem Place.In.step {front : List Char} {p : Place} (h : p.In front) (c : Char) :
    (p.step c).2.In (front ++ [c]) := by
  have hnew : [c] <:+ front ++ [c] := List.suffix_append _ _
  have hgrow : front <:+: front ++ [c] := (List.prefix_append _ _).isInfix
  cases p with
  | between =>
    simp only [Place.step]
    split
    · exact hnew
    · trivial
  | within word =>
    have hword : word <:+ front := h
    simp only [Place.step]
    split
    · exact List.suffix_append_self_iff.mpr hword
    · split
      · exact hword.isInfix.trans hgrow
      · trivial
  | past word =>
    have hword : word <:+: front := h
    simp only [Place.step]
    split
    · exact hnew
    · split
      · exact hword.trans hgrow
      · trivial

/-- A use is completed by the character that calls its word, or by one that does not. -/
theorem Place.In.uses {front : List Char} {p : Place} (h : p.In front) {c : Char} {u : Use}
    (hu : u ∈ (p.step c).1) : u.1 <:+: front ∧ (u.2 = true → c = '(') := by
  cases p with
  | between => cases hu
  | within word =>
    have hword : word <:+ front := h
    simp only [Place.step] at hu
    grind [List.IsSuffix.isInfix]
  | past word =>
    have hword : word <:+: front := h
    simp only [Place.step] at hu
    grind

/-- Every use is a part of the text, and a call needs a parenthesis. -/
theorem follow_uses (s : List Char) : ∀ u ∈ (follow .between s).1,
    u.1 <:+: s ∧ (u.2 = true → '(' ∈ s) := by
  have hall : ∀ (front : List Char) (p : Place), p.In front → ∀ (s : List Char),
      ∀ u ∈ (follow p s).1, u.1 <:+: front ++ s ∧ (u.2 = true → '(' ∈ s) := by
    intro front p hin s
    induction s generalizing front p with
    | nil => simp [follow]
    | cons c s ih =>
      intro u hu
      rw [follow, List.mem_append] at hu
      rcases hu with hu | hu
      · obtain ⟨hword, hcall⟩ := hin.uses hu
        exact ⟨hword.trans (List.prefix_append _ _).isInfix, fun h => by simp [hcall h]⟩
      · obtain ⟨hword, hcall⟩ := ih (front ++ [c]) (p.step c).2 (hin.step c) u hu
        rw [List.append_assoc, List.singleton_append] at hword
        exact ⟨hword, fun h => List.mem_cons_of_mem _ (hcall h)⟩
  exact hall [] .between trivial s

/-- A text without anything to find, up to a character that ends every word. -/
theorem passage_quiet {s : List Char} {stop : Char} (hstop : isStop stop = true)
    (h : ∀ w called, w <:+: s ++ [stop] → (called = true → '(' ∈ s) → mark (w, called) = false) :
    Passage mark (s ++ [stop]) [] where
  found := by
    have hcall : '(' ∈ s ++ [stop] → '(' ∈ s := by
      intro hmem
      rcases List.mem_append.mp hmem with hmem | hmem
      · exact hmem
      · rw [← List.mem_singleton.mp hmem] at hstop
        cases hstop
    rw [List.filter_eq_nil_iff]
    intro u hu
    obtain ⟨hin, hcalled⟩ := follow_uses _ u hu
    simp [h u.1 u.2 hin fun he => hcall (hcalled he)]
  place := follow_stop _ s hstop

end Passage

/-! ## The words of a text -/

/-- The words of a text, each with whether it is called. -/
def uses (cs : List Char) : List Use := (words cs).map fun u => (u.1, (openCall? u.2).isSome)

/-- The use that the end of the text completes: the word that the reader is at is not called. -/
def Place.pending : Place → List Use
  | .between => []
  | .within word => [(word, false)]
  | .past word => [(word, false)]

/-- The uses that are completed when a text is read to its end. -/
def usesFrom (p : Place) (cs : List Char) : List Use := (follow p cs).1 ++ (follow p cs).2.pending

theorem usesFrom_append (p : Place) (a b : List Char) :
    usesFrom p (a ++ b) = (follow p a).1 ++ usesFrom (follow p a).2 b := by
  simp only [usesFrom, follow_append, List.append_assoc]

theorem usesFrom_cons (p : Place) (c : Char) (cs : List Char) :
    usesFrom p (c :: cs) = (p.step c).1 ++ usesFrom (p.step c).2 cs := by
  simp only [usesFrom, follow, List.append_assoc]

/-- The first thing after a word tells whether it is called. -/
theorem usesFrom_past (word cs : List Char) :
    usesFrom (.past word) cs = (word, (openCall? cs).isSome) :: usesFrom .between cs := by
  induction cs with
  | nil => rfl
  | cons c cs ih =>
    rw [usesFrom_cons, usesFrom_cons .between]
    by_cases hword : isWordChar c = true
    · have hnone : openCall? (c :: cs) = none := by
        have hblank : isBlank c = false := by
          rw [← Bool.not_eq_true]
          intro hblank
          rw [not_isWordChar_of_isBlank hblank] at hword
          cases hword
        have hparen : '(' ≠ c := by
          rintro rfl
          exact absurd hword (by decide)
        simp [openCall?, skipBlanks, hblank, dropText?, hparen]
      simp [Place.step, hword, hnone]
    · by_cases hblank : isBlank c = true
      · have hskip : openCall? (c :: cs) = openCall? cs := by simp [openCall?, skipBlanks, hblank]
        simp [Place.step, hword, hblank, hskip, ih]
      · have hopen : (openCall? (c :: cs)).isSome = (c == '(') := by
          by_cases hparen : c = '('
          · rw [hparen]
            rfl
          · simp [openCall?, skipBlanks, hblank, dropText?, hparen, Ne.symm hparen]
        simp [Place.step, hword, hblank, hopen]

/-- After a word it does not matter whether its end has been seen. -/
theorem usesFrom_within {word cs : List Char}
    (hhead : ∀ c, cs.head? = some c → isWordChar c = false) :
    usesFrom (.within word) cs = usesFrom (.past word) cs := by
  cases cs with
  | nil => rfl
  | cons c cs => simp [usesFrom_cons, Place.step, hhead c rfl]

/-- A reader completes the uses of a text. -/
theorem uses_eq (cs : List Char) : uses cs = usesFrom .between cs := by
  match cs with
  | [] => simp [uses, words, usesFrom, follow, Place.pending]
  | c :: cs =>
    by_cases hword : isWordChar c = true
    · have hparts : c :: cs = c :: cs.takeWhile isWordChar ++ cs.dropWhile isWordChar := by
        rw [List.cons_append, List.takeWhile_append_dropWhile]
      have hname : ∀ d ∈ c :: cs.takeWhile isWordChar, isWordChar d = true :=
        List.forall_mem_cons.mpr ⟨hword, fun d hd => List.all_eq_true.mp List.all_takeWhile d hd⟩
      have hread : usesFrom .between (c :: cs) =
          usesFrom (.within (c :: cs.takeWhile isWordChar)) (cs.dropWhile isWordChar) := by
        rw [hparts, usesFrom_append, follow_name hname (by simp)]
        rfl
      have hhead : ∀ d, (cs.dropWhile isWordChar).head? = some d → isWordChar d = false := by
        intro d hd
        have hnot := List.head?_dropWhile_not isWordChar cs
        rw [hd] at hnot
        simpa using hnot
      have hlength := dropWhile_length_le isWordChar cs
      rw [hread, usesFrom_within hhead, usesFrom_past, ← uses_eq, uses, words, if_pos hword]
      rfl
    · have huses : uses (c :: cs) = uses cs := by rw [uses, words, if_neg hword, uses]
      rw [huses, uses_eq cs, usesFrom_cons]
      simp [Place.step, hword]
termination_by cs.length
decreasing_by
  all_goals simp only [List.length_cons]
  all_goals omega

/-- A passage is read on its own, whatever follows it. -/
theorem Follows.uses_append {mark : Use → Bool} {a : List Char} {found : List Use}
    (h : Passage mark a found) (b : List Char) :
    (uses (a ++ b)).filter mark = found ++ (uses b).filter mark := by
  rw [uses_eq, uses_eq, usesFrom_append, List.filter_append, h.found, h.place]

theorem Follows.uses {mark : Use → Bool} {a : List Char} {found : List Use}
    (h : Passage mark a found) : (Source.uses a).filter mark = found := by
  rw [uses_eq, usesFrom, h.place, Place.pending, List.append_nil, h.found]

theorem mentions_eq_false {word s : List Char} :
    mentions word s = false ↔ (uses s).filter (·.1 == word) = [] := by
  rw [mentions, ← Bool.not_eq_true, List.any_eq_true, List.filter_eq_nil_iff, uses, List.forall_mem_map]
  exact not_exists.trans (forall_congr' fun u => not_and)

/-- Wherever a reader stands, a word between two blanks is the last one it has seen. -/
theorem follow_spaced {name : List Char} (h : ∀ c ∈ name, isWordChar c = true) (hne : name ≠ [])
    (p : Place) : (follow p (' ' :: (name ++ [' ']))).2 = .past name := by
  have hname : ∀ word, follow (.past word) name = ([(word, false)], .within name) := by
    intro word
    obtain ⟨c, name, rfl⟩ := List.exists_cons_of_ne_nil hne
    have hc : isWordChar c = true := h c (by simp)
    simp [follow, Place.step, hc, follow_word fun d hd => h d (List.mem_cons_of_mem _ hd)]
  have hblank : ∀ word, (Place.step (.within word) ' ').2 = .past word ∧
      (Place.step (.past word) ' ').2 = .past word := fun _ => ⟨rfl, rfl⟩
  have hbetween : (Place.step .between ' ').2 = .between := rfl
  cases p with
  | between => simp [follow, follow_append, hbetween, follow_name h hne, hblank]
  | within word => simp [follow, follow_append, hname, hblank]
  | past word => simp [follow, follow_append, hname, hblank]

/-- A text that defines a name stands at one place at most, where that name is named once. -/
theorem front_unique {name needle text : List Char} (hname : ∀ c ∈ name, isWordChar c = true)
    (hne : name ≠ []) {before after : List Char}
    (hneedle : needle = before ++ (' ' :: (name ++ [' ']) ++ '=' :: after))
    (huses : (uses text).count (name, false) ≤ 1) {front front' : List Char}
    (h : front ++ needle <+: text) (h' : front' ++ needle <+: text) : front = front' := by
  -- a second place behind the first would name it once more
  have hbehind : ∀ {front front' : List Char}, front ++ needle <+: text → front' ++ needle <+: text →
      ¬ front.length < front'.length := by
    intro front front' h h' hlt
    obtain ⟨rest, rfl⟩ := h'
    have hpast : ∀ front, (follow .between (front ++ before ++ ' ' :: (name ++ [' ']))).2 =
        .past name := by
      intro front
      rw [follow_append]
      exact follow_spaced hname hne _
    have hearlier : front ++ before ++ ' ' :: (name ++ [' ']) ++ ['='] <+:
        front' ++ before ++ ' ' :: (name ++ [' ']) := by
      have hfirst : front ++ before ++ ' ' :: (name ++ [' ']) ++ ['='] <+:
          front' ++ needle ++ rest :=
        List.IsPrefix.trans ⟨after, by simp [hneedle]⟩ h
      have hsecond : front' ++ before ++ ' ' :: (name ++ [' ']) <+: front' ++ needle ++ rest :=
        ⟨'=' :: (after ++ rest), by simp [hneedle]⟩
      refine List.prefix_of_prefix_length_le hfirst hsecond ?_
      simp only [List.length_append, List.length_cons, List.length_nil]
      omega
    obtain ⟨more, hmore⟩ := hearlier
    have htext : front' ++ needle ++ rest =
        front' ++ before ++ ' ' :: (name ++ [' ']) ++ ('=' :: (after ++ rest)) := by
      simp [hneedle]
    have hequals : (Place.step (.past name) '=') = ([(name, false)], .between) := rfl
    rw [uses_eq, htext, usesFrom_append, hpast, usesFrom_cons, hequals, ← hmore, List.append_assoc,
      follow_append, List.singleton_append, follow, hpast, hequals] at huses
    simp only [List.count_append, List.count_singleton_self] at huses
    omega
  have hlength : front.length = front'.length :=
    Nat.le_antisymm (Nat.le_of_not_lt (hbehind h' h)) (Nat.le_of_not_lt (hbehind h h'))
  have hprefix : front <+: front' :=
    List.prefix_of_prefix_length_le ((List.prefix_append _ _).trans h)
      ((List.prefix_append _ _).trans h') (Nat.le_of_eq hlength)
  exact hprefix.eq_of_length hlength

/-! ## Table calls -/

/-- A call of a word that ends like a table function. -/
def callsTableFunction (u : Use) : Bool := u.2 && "Table".toList.isSuffixOf u.1

theorem follow_within {name : List Char} (h : ∀ c ∈ name, isWordChar c = true) (hne : name ≠ [])
    (p : Place) : ∃ found word, follow p name = (found, .within (word ++ name)) := by
  cases name with
  | nil => exact absurd rfl hne
  | cons c name =>
    have hc : isWordChar c = true := h c (by simp)
    have hname : ∀ word, follow (.within word) name = ([], .within (word ++ name)) := fun _ =>
      follow_word fun d hd => h d (List.mem_cons_of_mem _ hd)
    cases p with
    | between => exact ⟨[], [], by simp [follow, Place.step, hc, hname]⟩
    | within word => exact ⟨[], word, by simp [follow, Place.step, hc, hname]⟩
    | past word => exact ⟨[(word, false)], [], by simp [follow, Place.step, hc, hname]⟩

/-- The parenthesis that calls a word is read before the reader is between two words again. -/
theorem follow_openCall {word a b : List Char} (hopen : (openCall? (a ++ b)).isSome = true)
    {p : Place} (hp : p = .within word ∨ p = .past word) (hend : (follow p a).2 = .between) :
    (word, true) ∈ (follow p a).1 := by
  induction a generalizing p with
  | nil =>
    rw [follow] at hend
    rcases hp with rfl | rfl <;> cases hend
  | cons c a ih =>
    by_cases hc : isBlank c = true
    · have hstep : p.step c = ([], .past word) := by
        rcases hp with rfl | rfl <;> simp [Place.step, hc, not_isWordChar_of_isBlank hc]
      have hskip : openCall? (c :: a ++ b) = openCall? (a ++ b) := by
        simp [openCall?, skipBlanks, hc]
      rw [follow, hstep] at hend ⊢
      exact ih (hskip ▸ hopen) (.inr rfl) hend
    · have hparen : '(' = c := by
        by_cases hne : c = '('
        · exact hne.symm
        · simp [openCall?, skipBlanks, hc, dropText?, Ne.symm hne] at hopen
      have hstep : p.step '(' = ([(word, true)], .between) := by
        rcases hp with rfl | rfl <;> rfl
      rw [← hparen, follow, hstep]
      simp

/-- A call that starts in a text that ends between two words is called there. -/
theorem follow_calls {function rest a b : List Char} (hfunction : ∀ c ∈ function, isWordChar c = true)
    (hopen : (openCall? rest).isSome = true) (h : a ++ b = function ++ rest)
    (ha : a ≠ []) (hne : function ≠ []) {p : Place} (hp : (follow p a).2 = .between) :
    ∃ word, (word ++ function, true) ∈ (follow p a).1 := by
  rcases List.append_eq_append_iff.mp h with ⟨a', rfl, rfl⟩ | ⟨a', rfl, rfl⟩
  · obtain ⟨found, word, hread⟩ :=
      follow_within (fun c hc => hfunction c (List.mem_append_left _ hc)) ha p
    rw [hread] at hp
    cases hp
  · obtain ⟨found, word, hread⟩ := follow_within hfunction hne p
    rw [follow_append, hread] at hp ⊢
    exact ⟨word, List.mem_append_right _ (follow_openCall hopen (.inl rfl) hp)⟩

theorem tableFunction?_eq {cs rest : List Char} (h : tableFunction? cs = some rest) :
    ∃ function ∈ tableFunctions.map String.toList, cs = function ++ rest := by
  obtain ⟨name, hname, hd⟩ := List.exists_of_findSome?_eq_some h
  exact ⟨name.toList, List.mem_map_of_mem hname, dropText?_eq hd⟩

theorem callNames_none {c : Char} {cs : List Char} (h : tableCall? (c :: cs) = none) :
    callNames (c :: cs) = callNames cs := by
  rw [callNames]
  split
  · rename_i hcall
    rw [h] at hcall
    cases hcall
  · rfl

theorem callNames_some {cs name rest : List Char} (h : tableCall? cs = some (name, rest)) :
    callNames cs = name :: callNames rest := by
  cases cs with
  | nil => cases h
  | cons c cs =>
    rw [callNames]
    split
    · rename_i hcall
      rw [h] at hcall
      cases hcall
      rfl
    · rename_i hcall
      rw [h] at hcall
      cases hcall

/-- No table function that starts in a text without table calls is called. -/
theorem openCall?_passage {a : List Char} (hne : a ≠ []) {p : Place}
    (hfound : (follow p a).1.filter callsTableFunction = []) (hplace : (follow p a).2 = .between)
    {b rest : List Char} (h : tableFunction? (a ++ b) = some rest) : openCall? rest = none := by
  have hfunctions : ∀ function ∈ tableFunctions.map String.toList,
      function.all isWordChar = true ∧ function ≠ [] ∧ "Table".toList <:+ function := by
    decide
  rw [Option.eq_none_iff_forall_ne_some]
  intro open' hopen
  obtain ⟨function, hmem, he⟩ := tableFunction?_eq h
  obtain ⟨hchars, hfunction, hends⟩ := hfunctions function hmem
  obtain ⟨word, hword⟩ := follow_calls (List.all_eq_true.mp hchars) (by rw [hopen]; rfl) he hne
    hfunction hplace
  have hmark := List.filter_eq_nil_iff.mp hfound _ hword
  have hsuffix : "Table".toList <:+ word ++ function := hends.trans (List.suffix_append _ _)
  exact hmark (by simpa [callsTableFunction] using hsuffix)

/-- What holds at no called table function is passed over in a text without table calls. -/
theorem skip_passage {α : Type} {scan : List Char → α} {a : List Char}
    (ha : Passage callsTableFunction a []) (b : List Char)
    (h : ∀ c cs, (∀ rest, tableFunction? (c :: cs) = some rest → openCall? rest = none) →
      scan (c :: cs) = scan cs) : scan (a ++ b) = scan b := by
  have hall : ∀ p, (follow p a).1.filter callsTableFunction = [] → (follow p a).2 = .between →
      scan (a ++ b) = scan b := by
    clear ha
    induction a with
    | nil => exact fun _ _ _ => rfl
    | cons c a ih =>
      intro p hfound hplace
      rw [List.cons_append, h c (a ++ b) fun rest hrest =>
        openCall?_passage (by simp) hfound hplace (b := b) hrest]
      refine ih (p.step c).2 ?_ hplace
      rw [follow, List.filter_append, List.append_eq_nil_iff] at hfound
      exact hfound.2
  exact hall .between ha.found ha.place

/-- A text that calls no table function reports no table, whatever follows it. -/
theorem callNames_passage {a : List Char} (ha : Passage callsTableFunction a []) (b : List Char) :
    callNames (a ++ b) = callNames b := by
  refine skip_passage ha b fun c cs hnone => callNames_none ?_
  rw [Option.eq_none_iff_forall_ne_some]
  intro call hcall
  simp only [tableCall?, Option.bind_eq_bind, Option.bind_eq_some_iff] at hcall
  obtain ⟨rest, hrest, open', hopen, -⟩ := hcall
  rw [hnone rest hrest] at hopen
  cases hopen

/-- Nor does any table exist in it. -/
theorem anywhere_passage {a : List Char} (ha : Passage callsTableFunction a []) (name b : List Char) :
    anywhere (callsTable name) (a ++ b) = anywhere (callsTable name) b := by
  refine skip_passage ha b fun c cs hnone => ?_
  have hcall : callsTable name (c :: cs) = false := by
    unfold callsTable
    cases hrest : tableFunction? (c :: cs) with
    | none => rfl
    | some rest =>
      rw [Option.bind_some, namedArgument?, hnone rest hrest]
      rfl
  rw [anywhere, hcall, Bool.false_or]

end SchemaScaffold.Source
