import SchemaScaffold.Text.Lines

/-!
Line breaks made line feeds. A text is read so piece by piece, unless a carriage return at the end of
one piece meets a line feed at the start of the next; a text without carriage returns stays as it is.
-/

namespace SchemaScaffold.Text

theorem lineFeeds_cons {c : Char} (hc : c ≠ '\r') (cs : List Char) :
    lineFeeds (c :: cs) = c :: lineFeeds cs := by
  rw [lineFeeds]
  · simp [hc]
  · rintro rest rfl
    exact absurd rfl hc

theorem lineFeeds_of_not_mem {cs : List Char} (h : '\r' ∉ cs) : lineFeeds cs = cs := by
  induction cs with
  | nil => rfl
  | cons c cs ih =>
    obtain ⟨hc, hcs⟩ := List.ne_and_not_mem_of_not_mem_cons h
    rw [lineFeeds_cons (Ne.symm hc), ih hcs]

theorem withLineFeeds_of_not_mem {s : String} (h : '\r' ∉ s.toList) : withLineFeeds s = s := by
  rw [withLineFeeds, lineFeeds_of_not_mem h, String.ofList_toList]

/-- Reading a text in two pieces takes no line break apart. -/
theorem lineFeeds_append {a b : List Char} (h : a.getLast? = some '\r' → b.head? ≠ some '\n') :
    lineFeeds (a ++ b) = lineFeeds a ++ lineFeeds b := by
  fun_induction lineFeeds a with
  | case1 => rfl
  | case2 cs ih =>
    rw [List.cons_append, List.cons_append, lineFeeds, List.cons_append]
    congr 1
    refine ih fun hlast => h ?_
    cases cs with
    | nil => cases hlast
    | cons c cs => simpa only [List.getLast?_cons_cons] using hlast
  | case3 c cs hpair ih =>
    have hapart : ∀ rest, c = '\r' → cs ++ b ≠ '\n' :: rest := by
      rintro rest rfl he
      cases cs with
      | nil => exact h rfl (congrArg List.head? he)
      | cons d cs => exact hpair cs rfl (by rw [(List.cons.inj he).1])
    rw [List.cons_append, lineFeeds, List.cons_append]
    · congr 1
      refine ih fun hlast => h ?_
      cases cs with
      | nil => cases hlast
      | cons d cs => rwa [List.getLast?_cons_cons]
    · exact hapart

/-- A line that was ended is ended by a line feed. -/
theorem lineFeeds_line (a : List Char) : ['\n'] <:+ lineFeeds (a ++ ['\n']) := by
  by_cases hlast : a.getLast? = some '\r'
  · -- the carriage return and the line feed are one line break
    obtain ⟨front, rfl⟩ := List.getLast?_eq_some_iff.mp hlast
    rw [List.append_assoc, List.singleton_append, lineFeeds_append fun _ => by decide]
    exact List.suffix_append _ _
  · rw [lineFeeds_append fun h => absurd h hlast]
    exact List.suffix_append _ _

/-- Every line is ended by a line feed. -/
theorem toList_unlines (lines : List String) :
    (unlines lines).toList = lines.flatMap fun line => line.toList ++ ['\n'] := by
  induction lines with
  | nil => rfl
  | cons line lines ih =>
    show (line ++ "\n" ++ unlines lines).toList = _
    rw [String.toList_append, String.toList_append, ih, List.flatMap_cons]
    rfl

theorem toList_unlines_append (a b : List String) :
    (unlines (a ++ b)).toList = (unlines a).toList ++ (unlines b).toList := by
  rw [toList_unlines, toList_unlines, toList_unlines, List.flatMap_append]

end SchemaScaffold.Text
