import SchemaScaffold.Proofs.Naming.Endings
import SchemaScaffold.Proofs.Naming.WordStarts

/-!
Names in another case. Words stay apart when their letters change case, as long as the capital that
starts a word stays and the capitals inside it go together. So a name that went through snake case
still has its words, and can be told from any other by them; what it can lose are the capitals inside
a word, and only with those does its camel case change.
-/

namespace SchemaScaffold.Naming

open Text

/-! ## Words in another case -/

/-- `w'` can stand for `w` at the start of a name: what met `w` still meets `w'`. -/
structure Leads (w w' : List Char) : Prop where
  nonempty : w' ≠ []
  chars : ∀ c ∈ w', c.isAlphanum = true
  whole : Whole w'
  last : ∀ front a, w = front ++ [a] →
    ∃ front' a', w' = front' ++ [a'] ∧ (isLowerOrDigit a' = true ∨ a' = a)

/-- `w'` can stand for `w` inside a name: it starts a word as `w` does. -/
structure Follows (w w' : List Char) : Prop extends Leads w w' where
  head : ∀ b back, w = b :: back →
    ∃ back', w' = b :: back' ∧ (back.head?.any Char.isLower = true → back'.head?.any Char.isLower = true)

theorem Meets.recase {w w' v v' : List Char} (h : Meets w v) (hw : Leads w w') (hv : Follows v v') :
    Meets w' v' := by
  obtain ⟨front, a, b, back, rfl, rfl, hstart⟩ := h
  obtain ⟨front', a', rfl, ha⟩ := hw.last front a rfl
  obtain ⟨back', rfl, hback⟩ := hv.head b back rfl
  refine ⟨front', a', b, back', rfl, rfl, ?_⟩
  obtain ⟨hb, hbefore⟩ := Bool.and_eq_true_iff.mp hstart
  rw [startsWord, hb, Bool.true_and]
  rcases ha with ha | rfl
  · rw [ha, Bool.true_or]
  · rcases Bool.or_eq_true_iff.mp hbefore with hbefore | hbefore
    · rw [hbefore, Bool.true_or]
    · obtain ⟨ha, hafter⟩ := Bool.and_eq_true_iff.mp hbefore
      rw [ha, hback hafter, Bool.and_self, Bool.or_true]

/-- A name stays cut where it was when each of its words changes case. -/
theorem Cut.recase {w w' : List Char} {ws : List (List Char)} {f : List Char → List Char}
    (h : Cut (w :: ws)) (hw : Leads w w') (hws : ∀ v ∈ ws, Follows v (f v)) : Cut (w' :: ws.map f) where
  nonempty := List.forall_mem_cons.mpr ⟨hw.nonempty, List.forall_mem_map.mpr fun v hv => (hws v hv).nonempty⟩
  chars := List.forall_mem_cons.mpr ⟨hw.chars, List.forall_mem_map.mpr fun v hv => (hws v hv).chars⟩
  whole := List.forall_mem_cons.mpr ⟨hw.whole, List.forall_mem_map.mpr fun v hv => (hws v hv).whole⟩
  meets := by
    have hmeets := h.meets
    clear h
    -- the second word of the chain leads the rest of it, so the first one is generalized
    induction ws generalizing w w' with
    | nil => simp
    | cons v ws ih =>
      obtain ⟨hmeet, hmeets⟩ := List.isChain_cons_cons.mp hmeets
      obtain ⟨hv, hws⟩ := List.forall_mem_cons.mp hws
      exact List.isChain_cons_cons.mpr ⟨hmeet.recase hw hv, ih hv.toLeads hws hmeets⟩

/-- Words start with a capital, but for the first. -/
theorem Cut.capital {w : List Char} {ws : List (List Char)} (h : Cut (w :: ws)) :
    ∀ v ∈ ws, ∃ b back, v = b :: back ∧ b.isUpper = true := by
  have hmeets := h.meets
  clear h
  induction ws generalizing w with
  | nil => simp
  | cons v ws ih =>
    obtain ⟨⟨_, _, b, back, -, rfl, hstart⟩, hmeets⟩ := List.isChain_cons_cons.mp hmeets
    exact List.forall_mem_cons.mpr ⟨⟨b, back, rfl, isUpper_of_startsWord hstart⟩, ih hmeets⟩

theorem small_lower {w : List Char} (h : ∀ c ∈ w, c.isAlphanum = true) : Small (lower w) :=
  lower_alphanum h

theorem leads_lower {w : List Char} (hne : w ≠ []) (h : ∀ c ∈ w, c.isAlphanum = true) :
    Leads w (lower w) where
  nonempty := by
    rw [lower_ascii fun c hc => isAlphanum_ascii (h c hc)]
    simpa using hne
  chars := fun c hc => isLowerOrDigit_alphanum (small_lower h c hc)
  whole := whole_of_small fun c hc => not_isUpper_small (small_lower h c (List.mem_of_mem_tail hc))
  last := by
    rintro front a rfl
    have hlower := small_lower h
    rw [lower_ascii fun c hc => isAlphanum_ascii (h c hc), List.map_append] at hlower ⊢
    exact ⟨_, a.toLower, rfl, .inl (hlower _ (by simp))⟩

theorem lower_cons {b : Char} {back : List Char} (h : ∀ c ∈ b :: back, c.isAlphanum = true) :
    lower (b :: back) = b.toLower :: lower back := by
  rw [lower_ascii fun c hc => isAlphanum_ascii (h c hc),
    lower_ascii fun c hc => isAlphanum_ascii (h c (List.mem_cons_of_mem _ hc))]
  rfl

theorem capitalize_lower_cons {b : Char} {back : List Char}
    (h : ∀ c ∈ b :: back, c.isAlphanum = true) :
    capitalize (lower (b :: back)) = b.toUpper :: lower back := by
  have hb := h b List.mem_cons_self
  have hsmall := alphanum_forall (p := fun b => b.toLower.toNat < 128) (by decide) hb
  have hsame := alphanum_forall (p := fun b => b.toLower.toUpper = b.toUpper) (by decide) hb
  rw [lower_cons h, capitalize_cons _ hsmall, hsame]

theorem toUpper_capital {b : Char} (h : b.isUpper = true) : b.toUpper = b :=
  alphanum_forall (p := fun b => b.isUpper = true → b.toUpper = b) (by decide)
    (by simp [isAlphanum_eq, h]) h

theorem lower_settled {w : List Char} (h : ∀ c ∈ w, c.isAlphanum = true) :
    lower (capitalize (lower w)) = lower w := by
  have hlower : ∀ c ∈ lower w, c.isAlphanum = true := fun c hc =>
    isLowerOrDigit_alphanum (small_lower h c hc)
  have hcapital := capitalize_alphanum hlower
  rw [lower_ascii fun c hc => isAlphanum_ascii (hcapital c hc), toLower_capitalize hlower,
    toLower_lower h, lower_ascii fun c hc => isAlphanum_ascii (h c hc)]

theorem head_lower {w : List Char} (h : ∀ c ∈ w, c.isAlphanum = true)
    (hletter : w.head?.any Char.isLower = true) : (lower w).head?.any Char.isLower = true := by
  cases w with
  | nil => cases hletter
  | cons c w =>
    have hc : c.isLower = true := hletter
    rw [lower_cons h, toLower_small (by simp [isLowerOrDigit, hc])]
    exact hletter

theorem follows_settled {b : Char} {back : List Char} (h : ∀ c ∈ b :: back, c.isAlphanum = true)
    (hb : b.isUpper = true) : Follows (b :: back) (capitalize (lower (b :: back))) := by
  obtain ⟨hfirst, hback⟩ := List.forall_mem_cons.mp h
  have hsmall := small_lower hback
  rw [capitalize_lower_cons h, toUpper_capital hb]
  exact {
    nonempty := by simp
    chars := List.forall_mem_cons.mpr ⟨hfirst, fun c hc => isLowerOrDigit_alphanum (hsmall c hc)⟩
    whole := whole_of_small fun c hc => not_isUpper_small (hsmall c hc)
    last := by
      intro front a he
      rcases List.eq_nil_or_concat back with rfl | ⟨rest, d, rfl⟩
      · exact ⟨[], b, rfl, .inr (by simpa using congrArg List.getLast? he)⟩
      · rw [List.concat_eq_append] at hback hsmall ⊢
        rw [lower_ascii fun c hc => isAlphanum_ascii (hback c hc), List.map_append] at hsmall ⊢
        exact ⟨b :: rest.map Char.toLower, d.toLower, rfl, .inl (hsmall _ (by simp))⟩
    head := by
      rintro b' back' he
      cases he
      exact ⟨lower back, rfl, head_lower hback⟩ }

/-! ## Names that went through snake case -/

section Spellings

variable {s : String}

theorem words_snakeCase (h : ∀ c ∈ s.toList, isNameChar c = true) :
    words (snakeCase s) = (words s).map lower := by
  rw [words, separate_of_small fun c hc => not_isUpper_snake (snakeCase_chars h c hc),
    fields_snakeCase h]

theorem camelCase_snakeCase_cons (h : ∀ c ∈ s.toList, isNameChar c = true) {w : List Char}
    {ws : List (List Char)} (hwords : words s = w :: ws) : camelCase (snakeCase s) =
      String.ofList (lower w ++ (ws.map fun v => capitalize (lower v)).flatten) := by
  have hsnake := words_snakeCase h
  rw [hwords] at hsnake
  have hw : ∀ c ∈ w, c.isAlphanum = true :=
    (words_alphanum h (hwords ▸ List.mem_cons_self)).2
  rw [← String.toList_inj, camelCase_toList _ hsnake, String.toList_ofList, List.map_map,
    (small_lower hw).lower]
  rfl

/-- A name with only the capitals that start a word, but for the first, keeps its words. -/
theorem words_settled (h : ∀ c ∈ s.toList, isNameChar c = true) (hcut : Cut (words s)) :
    (words (camelCase (snakeCase s))).map lower = (words s).map lower := by
  cases hwords : words s with
  | nil =>
    have hempty : camelCase (snakeCase s) = "" := by
      rw [camelCase, words_snakeCase h, hwords]
      rfl
    rw [hempty]
    rfl
  | cons w ws =>
    rw [hwords] at hcut
    obtain ⟨hne, -⟩ := List.forall_mem_cons.mp hcut.nonempty
    obtain ⟨hw, hws⟩ := List.forall_mem_cons.mp hcut.chars
    have hsettled : Cut (lower w :: ws.map fun v => capitalize (lower v)) := by
      refine hcut.recase (leads_lower hne hw) fun v hv => ?_
      obtain ⟨b, back, rfl, hb⟩ := hcut.capital v hv
      exact follows_settled (hws _ hv) hb
    rw [camelCase_snakeCase_cons h hwords, ← List.flatten_cons, hsettled.words, List.map_cons,
      List.map_cons, List.map_map, (small_lower hw).lower]
    exact congrArg _ (List.map_congr_left fun v hv => lower_settled (hws v hv))

/-- Spelling a name in camel case does not change its spelling in snake case. -/
theorem snakeCase_settled (h : ∀ c ∈ s.toList, isNameChar c = true) (hcut : Cut (words s)) :
    snakeCase (camelCase (snakeCase s)) = snakeCase s := by
  rw [snakeCase, words_settled h hcut, ← snakeCase]

/-! ## Names without capitals inside words -/

/-- Lowers the capitals that start no word, behind the character `before`. -/
def settleFrom (before : Char) : List Char → List Char
  | [] => []
  | c :: cs => (if startsWord before c cs.head? then c else c.toLower) :: settleFrom c cs

/-- Lowers the first character and the capitals that start no word. -/
def settleChars : List Char → List Char
  | [] => []
  | c :: cs => c.toLower :: settleFrom c cs

/-- A name in which a capital only ever starts a word behind another, and without a line break at its
end. -/
def settle (s : String) : String := String.ofList (settleChars (chomp s.toList).1)

theorem settleFrom_inside {a e : Char} {t rest : List Char} (h : Whole (a :: t))
    (hchars : ∀ c ∈ t, c.isAlphanum = true) (hlast : (a :: t).getLast? = some e)
    (hrest : Capitalized rest) : settleFrom a (t ++ rest) = lower t ++ settleFrom e rest := by
  induction t generalizing a with
  | nil =>
    obtain rfl : a = e := Option.some.inj hlast
    rfl
  | cons b t ih =>
    rw [List.getLast?_cons_cons] at hlast
    have hinside : startsWord a b (t ++ rest).head? = false := by
      rw [startsWord_append _ _ _ hrest]
      exact h.1
    rw [List.cons_append, settleFrom, if_neg (Bool.eq_false_iff.mp hinside), lower_cons hchars,
      ih h.2 (List.forall_mem_cons.mp hchars).2 hlast, List.cons_append]

theorem settleFrom_words {w : List Char} {ws : List (List Char)} {e : Char} (h : Cut (w :: ws))
    (hlast : w.getLast? = some e) :
    settleFrom e ws.flatten = (ws.map fun v => capitalize (lower v)).flatten := by
  induction ws generalizing w e with
  | nil => rfl
  | cons v ws ih =>
    obtain ⟨⟨front, a, b, back, rfl, rfl, hstart⟩, -⟩ := List.isChain_cons_cons.mp h.meets
    obtain rfl : a = e := by simpa using hlast
    have hv := h.tail.chars (b :: back) List.mem_cons_self
    have hrest : Capitalized ws.flatten := capitalized_of_chain h.tail.meets
    have hjoint : startsWord a b (back ++ ws.flatten).head? = true := by
      rwa [startsWord_append _ _ _ hrest]
    obtain ⟨d, hd⟩ : ∃ d, (b :: back).getLast? = some d := ⟨_, List.getLast?_eq_some_getLast (by simp)⟩
    have hwhole := h.tail.whole (b :: back) List.mem_cons_self
    rw [List.flatten_cons, List.cons_append, settleFrom, if_pos hjoint, List.map_cons, List.flatten_cons,
      capitalize_lower_cons hv, toUpper_capital (isUpper_of_startsWord hstart), List.cons_append,
      settleFrom_inside hwhole (List.forall_mem_cons.mp hv).2 hd hrest, ih h.tail hd]

theorem settleChars_words {w : List Char} {ws : List (List Char)} (h : Cut (w :: ws)) :
    settleChars (w :: ws).flatten = lower w ++ (ws.map fun v => capitalize (lower v)).flatten := by
  obtain ⟨c, cs, rfl⟩ := List.exists_cons_of_ne_nil (h.nonempty w List.mem_cons_self)
  have hw := h.chars (c :: cs) List.mem_cons_self
  have hwhole := h.whole (c :: cs) List.mem_cons_self
  obtain ⟨e, he⟩ : ∃ e, (c :: cs).getLast? = some e := ⟨_, List.getLast?_eq_some_getLast (by simp)⟩
  rw [List.flatten_cons, List.cons_append, settleChars,
    settleFrom_inside hwhole (List.forall_mem_cons.mp hw).2 he (capitalized_of_chain h.meets),
    settleFrom_words h he, lower_cons hw, List.cons_append]

/-- Snake case forgets the capitals inside words and nothing else. -/
theorem camelCase_snakeCase (h : ∀ c ∈ (chomp s.toList).1, c.isAlphanum = true) :
    camelCase (snakeCase s) = settle s := by
  have hchars := nameChars_of_chomp h
  have hcut := cut_words_chomp h
  rw [settle, ← words_flatten_chomp h]
  cases hwords : words s with
  | nil =>
    rw [camelCase, words_snakeCase hchars, hwords]
    rfl
  | cons w ws =>
    rw [hwords] at hcut
    rw [camelCase_snakeCase_cons hchars hwords, settleChars_words hcut]

/-- Two names share their snake case if they are one name but for the capitals inside words. -/
theorem snakeCase_eq_iff {t : String} (hs : ∀ c ∈ (chomp s.toList).1, c.isAlphanum = true)
    (ht : ∀ c ∈ (chomp t.toList).1, c.isAlphanum = true) :
    snakeCase s = snakeCase t ↔ settle s = settle t := by
  rw [← camelCase_snakeCase hs, ← camelCase_snakeCase ht]
  refine ⟨congrArg camelCase, fun h => ?_⟩
  rw [← snakeCase_settled (nameChars_of_chomp hs) (cut_words_chomp hs), h,
    snakeCase_settled (nameChars_of_chomp ht) (cut_words_chomp ht)]

example : settle "createdAT" = "createdAt" := by decide

/-! ## Camel case by way of snake case -/

theorem flatten_map_eq_iff {f g : List Char → List Char} {ws : List (List Char)}
    (hlength : ∀ w ∈ ws, (f w).length = (g w).length) :
    (ws.map f).flatten = (ws.map g).flatten ↔ ∀ w ∈ ws, f w = g w := by
  induction ws with
  | nil => simp
  | cons w ws ih =>
    obtain ⟨hw, hws⟩ := List.forall_mem_cons.mp hlength
    rw [List.map_cons, List.map_cons, List.flatten_cons, List.flatten_cons, List.forall_mem_cons, ← ih hws]
    refine ⟨fun h => List.append_inj h hw, ?_⟩
    rintro ⟨hhead, htail⟩
    rw [hhead, htail]

/-- A word keeps its capitals through lower case if it has none behind its first letter. -/
theorem capitalize_lower_iff {w : List Char} (h : ∀ c ∈ w, c.isAlphanum = true) :
    capitalize (lower w) = capitalize w ↔ ∀ c ∈ w.tail, c.isUpper = false := by
  cases w with
  | nil => simp [capitalize, lower, lowerAfter]
  | cons b back =>
    obtain ⟨hb, hback⟩ := List.forall_mem_cons.mp h
    rw [capitalize_lower_cons h, capitalize_cons _ (isAlphanum_ascii hb), List.cons_eq_cons,
      and_iff_right rfl, List.tail_cons]
    constructor
    · intro he c hc
      exact not_isUpper_small (small_lower hback c (by rwa [he]))
    · intro hnone
      refine Small.lower fun c hc => ?_
      simpa [isLowerOrDigit, isAlphanum_eq, hnone c hc] using hback c hc

theorem length_capitalize {w : List Char} (h : ∀ c ∈ w, c.isAlphanum = true) :
    (capitalize w).length = w.length := by
  simpa using congrArg List.length (toLower_capitalize h)

theorem length_lower {w : List Char} (h : ∀ c ∈ w, c.isAlphanum = true) :
    (lower w).length = w.length := by
  simpa using congrArg List.length (toLower_lower h)

/-- A name has its camel case back from snake case if no word but the first has a capital inside. -/
theorem camelCase_snakeCase_iff (h : ∀ c ∈ s.toList, isNameChar c = true) :
    camelCase (snakeCase s) = camelCase s ↔
      ∀ w ∈ (words s).tail, ∀ c ∈ w.tail, c.isUpper = false := by
  have hsnake := words_snakeCase h
  cases hwords : words s with
  | nil =>
    rw [hwords] at hsnake
    simp [camelCase, hwords, hsnake]
  | cons w ws =>
    rw [hwords] at hsnake
    have hchars : ∀ v ∈ w :: ws, ∀ c ∈ v, c.isAlphanum = true := fun v hv =>
      (words_alphanum h (hwords ▸ hv)).2
    obtain ⟨hw, hws⟩ := List.forall_mem_cons.mp hchars
    rw [← String.toList_inj, camelCase_toList _ hsnake, camelCase_toList _ hwords,
      (small_lower hw).lower, List.append_cancel_left_eq, List.map_map, flatten_map_eq_iff]
    · exact forall₂_congr fun v hv => capitalize_lower_iff (hws v hv)
    · intro v hv
      have hlower : ∀ c ∈ lower v, c.isAlphanum = true := fun c hc =>
        isLowerOrDigit_alphanum (small_lower (hws v hv) c hc)
      show (capitalize (lower v)).length = _
      rw [length_capitalize hlower, length_lower (hws v hv), length_capitalize (hws v hv)]

end Spellings

end SchemaScaffold.Naming
