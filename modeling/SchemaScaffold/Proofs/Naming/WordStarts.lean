import Mathlib.Data.List.Chain
import SchemaScaffold.Proofs.Naming.Routes
import SchemaScaffold.Proofs.Text.Splitting

/-!
Where words start. A capital starts a word by what stands on its two sides, so the words of a name
without separators are told locally: none starts inside a word, and one starts wherever two meet. A
list of words with both properties is split as it was joined, and every name is the join of such a
list.
-/

namespace SchemaScaffold.Naming

open Text

/-! ## Cuts -/

/-- No word starts inside `w`. -/
def Whole : List Char → Prop
  | a :: b :: cs => startsWord a b cs.head? = false ∧ Whole (b :: cs)
  | _ => True

/-- A word starts where `w` ends and `v` begins. -/
def Meets (w v : List Char) : Prop :=
  ∃ front a b back, w = front ++ [a] ∧ v = b :: back ∧ startsWord a b back.head? = true

/-- A name cut into its words. -/
structure Cut (ws : List (List Char)) : Prop where
  nonempty : ∀ w ∈ ws, w ≠ []
  chars : ∀ w ∈ ws, ∀ c ∈ w, c.isAlphanum = true
  whole : ∀ w ∈ ws, Whole w
  meets : ws.IsChain Meets

theorem isUpper_of_startsWord {a b : Char} {after : Option Char} (h : startsWord a b after = true) :
    b.isUpper = true :=
  (Bool.and_eq_true_iff.mp h).1

/-- A capital behind a capital starts a word only if a small letter follows, so any other character
that follows may as well be missing. -/
theorem startsWord_capital (a b : Char) {c : Char} (h : c.isUpper = true) :
    startsWord a b (some c) = startsWord a b none := by
  simp [startsWord, not_isLower_of_isUpper h]

/-- What follows a word starts with a capital, if there is anything. -/
def Capitalized (rest : List Char) : Prop := ∀ c, rest.head? = some c → c.isUpper = true

theorem startsWord_append (a b : Char) (cs : List Char) {rest : List Char} (h : Capitalized rest) :
    startsWord a b (cs ++ rest).head? = startsWord a b cs.head? := by
  cases cs with
  | cons c cs => rfl
  | nil =>
    cases rest with
    | nil => rfl
    | cons c rest => exact startsWord_capital a b (h c rfl)

theorem capitalized_of_chain {w : List Char} {ws : List (List Char)} (h : (w :: ws).IsChain Meets) :
    Capitalized ws.flatten := by
  cases ws with
  | nil => simp [Capitalized]
  | cons v ws =>
    obtain ⟨⟨front, a, b, back, -, rfl, hstart⟩, -⟩ := List.isChain_cons_cons.mp h
    intro c hc
    cases hc
    exact isUpper_of_startsWord hstart

theorem whole_of_small {w : List Char} (h : ∀ c ∈ w.tail, c.isUpper = false) : Whole w := by
  induction w with
  | nil => trivial
  | cons a w ih =>
    cases w with
    | nil => trivial
    | cons b cs =>
      refine ⟨by simp [startsWord, h b (by simp)], ih fun c hc => ?_⟩
      exact h c (List.mem_cons_of_mem _ hc)

theorem separate_of_whole {w : List Char} (h : Whole w) : separate w = w := by
  fun_induction separate w with
  | case1 a b cs hs ih => rw [h.1] at hs; cases hs
  | case2 a b cs hs ih => rw [ih h.2]
  | case3 cs => rfl

/-- A space is put where two words meet. -/
theorem separate_meet {w v rest : List Char} (hw : Whole w) (hmeet : Meets w v)
    (hrest : Capitalized rest) : separate (w ++ (v ++ rest)) = w ++ ' ' :: separate (v ++ rest) := by
  obtain ⟨front, a, b, back, rfl, rfl, hstart⟩ := hmeet
  have hcapital : Capitalized (b :: back ++ rest) := by
    intro c hc
    cases hc
    exact isUpper_of_startsWord hstart
  induction front with
  | nil =>
    have hjoint : startsWord a b (back ++ rest).head? = true := by rwa [startsWord_append _ _ _ hrest]
    simp only [List.nil_append, List.cons_append, separate, hjoint, if_true]
  | cons c front ih =>
    obtain ⟨d, cs, hcs⟩ : ∃ d cs, front ++ [a] = d :: cs := List.exists_cons_of_ne_nil (by simp)
    rw [List.cons_append, hcs] at hw ⊢
    rw [hcs] at ih
    have hinside : startsWord c d (cs ++ (b :: back ++ rest)).head? = false := by
      rw [startsWord_append _ _ _ hcapital, hw.1]
    rw [List.cons_append, List.cons_append, separate, if_neg (Bool.eq_false_iff.mp hinside)]
    exact congrArg _ (ih hw.2)

theorem Cut.tail {w : List Char} {ws : List (List Char)} (h : Cut (w :: ws)) : Cut ws where
  nonempty := fun v hv => h.nonempty v (List.mem_cons_of_mem _ hv)
  chars := fun v hv => h.chars v (List.mem_cons_of_mem _ hv)
  whole := fun v hv => h.whole v (List.mem_cons_of_mem _ hv)
  meets := h.meets.tail

theorem Cut.separate {ws : List (List Char)} (h : Cut ws) :
    separate ws.flatten = [' '].intercalate ws := by
  induction ws with
  | nil => rfl
  | cons w ws ih =>
    have hw := h.whole w List.mem_cons_self
    cases ws with
    | nil => simpa using separate_of_whole hw
    | cons v ws =>
      have hrest : Capitalized ws.flatten := capitalized_of_chain h.tail.meets
      have hmeet : Meets w v := (List.isChain_cons_cons.mp h.meets).1
      rw [List.flatten_cons, List.flatten_cons, separate_meet hw hmeet hrest, ← List.flatten_cons,
        ih h.tail, List.intercalate_cons_cons, List.append_assoc]
      rfl

/-- A name that is cut into words has these words. -/
theorem Cut.words {ws : List (List Char)} (h : Cut ws) : words (String.ofList ws.flatten) = ws := by
  rw [Naming.words, String.toList_ofList, h.separate]
  refine fields_intercalate (by decide) fun w hw => ⟨h.nonempty w hw, fun c hc => ?_⟩
  exact alphanum_not_separator (h.chars w hw c hc)

section Cons

variable {a b : Char} {t : List Char} {ws : List (List Char)}

/-- A letter before a word that starts is a word of its own. -/
theorem Cut.cons_start (h : Cut ((b :: t) :: ws)) (ha : a.isAlphanum = true)
    (hstart : startsWord a b t.head? = true) : Cut ([a] :: (b :: t) :: ws) where
  nonempty := List.forall_mem_cons.mpr ⟨by simp, h.nonempty⟩
  chars := List.forall_mem_cons.mpr ⟨by simpa using ha, h.chars⟩
  whole := List.forall_mem_cons.mpr ⟨trivial, h.whole⟩
  meets := List.isChain_cons_cons.mpr ⟨⟨[], a, b, t, rfl, rfl, hstart⟩, h.meets⟩

/-- A letter before a word that does not start there belongs to it. -/
theorem Cut.cons_inside (h : Cut ((b :: t) :: ws)) (ha : a.isAlphanum = true)
    (hstart : startsWord a b t.head? = false) : Cut ((a :: b :: t) :: ws) where
  nonempty := List.forall_mem_cons.mpr ⟨by simp, h.tail.nonempty⟩
  chars := by
    obtain ⟨hword, hchars⟩ := List.forall_mem_cons.mp h.chars
    exact List.forall_mem_cons.mpr ⟨List.forall_mem_cons.mpr ⟨ha, hword⟩, hchars⟩
  whole := by
    obtain ⟨hword, hwhole⟩ := List.forall_mem_cons.mp h.whole
    exact List.forall_mem_cons.mpr ⟨⟨hstart, hword⟩, hwhole⟩
  meets := by
    obtain ⟨hmeet, hmeets⟩ := List.isChain_cons.mp h.meets
    refine List.isChain_cons.mpr ⟨fun v hv => ?_, hmeets⟩
    obtain ⟨front, e, d, back, hfront, rfl, hjoint⟩ := hmeet v hv
    exact ⟨a :: front, e, d, back, by rw [hfront]; rfl, rfl, hjoint⟩

end Cons

/-- Every name of letters and digits is cut into words. -/
theorem exists_cut {cs : List Char} (h : ∀ c ∈ cs, c.isAlphanum = true) :
    ∃ ws, Cut ws ∧ ws.flatten = cs := by
  induction cs with
  | nil => exact ⟨[], ⟨by simp, by simp, by simp, .nil⟩, rfl⟩
  | cons a cs ih =>
    obtain ⟨ha, hcs⟩ := List.forall_mem_cons.mp h
    obtain ⟨ws, hcut, rfl⟩ := ih hcs
    cases ws with
    | nil => exact ⟨[[a]], ⟨by simp, by simpa using ha, by simp [Whole], by simp⟩, rfl⟩
    | cons w ws =>
      obtain ⟨b, t, rfl⟩ := List.exists_cons_of_ne_nil (hcut.nonempty w List.mem_cons_self)
      by_cases hstart : startsWord a b t.head? = true
      · exact ⟨_, hcut.cons_start ha hstart, rfl⟩
      · exact ⟨_, hcut.cons_inside ha (Bool.eq_false_iff.mpr hstart), rfl⟩

/-- The words of a name of letters and digits are a cut of it. -/
theorem cut_words {s : String} (h : ∀ c ∈ s.toList, c.isAlphanum = true) : Cut (words s) := by
  obtain ⟨ws, hcut, hws⟩ := exists_cut h
  have hwords := hcut.words
  rw [hws, String.ofList_toList] at hwords
  rwa [hwords]

/-! ## A line break at the end -/

theorem separate_break (cs : List Char) : separate (cs ++ ['\n']) = separate cs ++ ['\n'] := by
  have hafter (a b : Char) (cs : List Char) :
      startsWord a b (cs ++ ['\n']).head? = startsWord a b cs.head? := by
    cases cs with
    | nil => rfl
    | cons c cs => rfl
  fun_induction separate cs with
  | case1 a b cs h ih =>
    rw [List.cons_append] at ih ⊢
    rw [List.cons_append, separate, hafter, if_pos h, ih]
    rfl
  | case2 a b cs h ih =>
    rw [List.cons_append] at ih ⊢
    rw [List.cons_append, separate, hafter, if_neg h, ih]
    rfl
  | case3 cs h =>
    cases cs with
    | nil => rfl
    | cons a cs =>
      cases cs with
      | nil => rfl
      | cons b cs => exact absurd rfl (h a b cs)

/-- A line break at the end of a name is in none of its words. -/
theorem words_chomp (s : String) : words (String.ofList (chomp s.toList).1) = words s := by
  have hparts := chomp_append s.toList
  rw [words, words, String.toList_ofList]
  rcases chomp_snd s.toList with hend | hend
  · rw [hend, List.append_nil] at hparts
    rw [hparts]
  · rw [hend] at hparts
    have hseparate : separate s.toList = separate (chomp s.toList).1 ++ ['\n'] := by
      rw [← separate_break, hparts]
    rw [hseparate, fields_append isSeparator (by decide)]
    simp [fields, split]

theorem words_flatten_chomp {s : String} (h : ∀ c ∈ (chomp s.toList).1, c.isAlphanum = true) :
    (words s).flatten = (chomp s.toList).1 := by
  rw [← words_chomp, words_flatten, String.toList_ofList, filter_alphanum h]

theorem nameChars_of_chomp {s : String} (h : ∀ c ∈ (chomp s.toList).1, c.isAlphanum = true) :
    ∀ c ∈ s.toList, isNameChar c = true := by
  intro c hc
  rw [← chomp_append s.toList, List.mem_append] at hc
  rcases hc with hc | hc
  · exact isNameChar_of_isAlphanum (h c hc)
  · rw [mem_chomp_snd hc]
    decide

/-- The words of a name are a cut, whether or not a line break ends it. -/
theorem cut_words_chomp {s : String} (h : ∀ c ∈ (chomp s.toList).1, c.isAlphanum = true) :
    Cut (words s) := by
  rw [← words_chomp]
  exact cut_words (by rwa [String.toList_ofList])

end SchemaScaffold.Naming
