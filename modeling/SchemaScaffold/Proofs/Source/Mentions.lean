import SchemaScaffold.Proofs.Source.Tokens

/-!
What the tokens of a code tell of its names. A code is looked at piece by piece: where a piece ends
with a token that no mention goes over, the mentions of the whole are those of its pieces, and its
free names can be counted off them.
-/

namespace SchemaScaffold.Source

open Text

/-- A name in a code, by what the code does with it. -/
inductive Mention
  | call (x : String)
  | type (x : String)
  | enum (x : String)
  deriving DecidableEq

def Mention.token : Mention → Token
  | call x => .name x.toList
  | type x => .name x.toList
  | enum x => .name x.toList

/-- The name of a mention, if the code has to get it from elsewhere. -/
def Mention.free? (mentions : List Mention) : Mention → Option String
  | call x => if enum x ∈ mentions then none else some x
  | type x => some x
  | enum _ => none

/-- The free names of mentions, in their order. -/
def freeNames (mentions : List Mention) : List String := mentions.filterMap (Mention.free? mentions)

theorem mem_freeNames {mentions : List Mention} {x : String} :
    x ∈ freeNames mentions ↔
      (.call x ∈ mentions ∧ .enum x ∉ mentions) ∨ .type x ∈ mentions := by
  rw [freeNames, List.mem_filterMap]
  constructor
  · rintro ⟨mention, hmention, hx⟩
    cases mention with
    | call y =>
      by_cases henum : Mention.enum y ∈ mentions
      · simp [Mention.free?, henum] at hx
      · obtain rfl : y = x := by simpa [Mention.free?, henum] using hx
        exact .inl ⟨hmention, henum⟩
    | type y =>
      obtain rfl : y = x := by simpa [Mention.free?] using hx
      exact .inr hmention
    | enum y => cases hx
  · rintro (⟨hcall, henum⟩ | htype)
    · exact ⟨_, hcall, by simp [Mention.free?, henum]⟩
    · exact ⟨_, htype, rfl⟩

theorem freeNames_tokens (mentions : List Mention) :
    ((freeNames mentions).map fun x => Token.name x.toList).Sublist (mentions.map Mention.token) := by
  have hall : ∀ rest : List Mention, ((rest.filterMap (Mention.free? mentions)).map fun x =>
      Token.name x.toList).Sublist (rest.map Mention.token) := by
    intro rest
    induction rest with
    | nil => exact List.nil_sublist _
    | cons mention rest ih =>
      rw [List.filterMap_cons, List.map_cons]
      cases hfree : mention.free? mentions with
      | none => exact ih.cons _
      | some x =>
        have htoken : Token.name x.toList = mention.token := by
          cases mention <;> simp [Mention.free?] at hfree <;> simp [Mention.token, hfree]
        rw [List.map_cons, htoken]
        exact ih.cons_cons _
  exact hall mentions

/-- The mentions of a list of tokens, in their order. No mention goes over its end. -/
structure Told (ts : List Token) (mentions : List Mention) : Prop where
  calls : ∀ x : String, Tells [.name x.toList, .sign '('] ts (.call x ∈ mentions)
  types : ∀ x : String,
    Tells [.sign ')', .sign ':', .name x.toList, .sign '=', .sign '>'] ts (.type x ∈ mentions)
  enums : ∀ x : String,
    Tells [.name "const".toList, .name x.toList, .sign '=', .name "pgEnum".toList, .sign '('] ts
      (.enum x ∈ mentions)
  order : (mentions.map Mention.token).Sublist ts

namespace Told

variable {ts ts' : List Token} {mentions mentions' : List Mention}

theorem append (h : Told ts mentions) (h' : Told ts' mentions') :
    Told (ts ++ ts') (mentions ++ mentions') where
  calls x := ((h.calls x).append (h'.calls x)).iff List.mem_append.symm
  types x := ((h.types x).append (h'.types x)).iff List.mem_append.symm
  enums x := ((h.enums x).append (h'.enums x)).iff List.mem_append.symm
  order := by
    rw [List.map_append]
    exact h.order.append h'.order

theorem nil : Told [] [] where
  calls _ := (Tells.nil (by simp)).iff (by simp)
  types _ := (Tells.nil (by simp)).iff (by simp)
  enums _ := (Tells.nil (by simp)).iff (by simp)
  order := List.nil_sublist _

theorem free_iff (h : Told ts mentions) (x : String) : Free ts x ↔ x ∈ freeNames mentions := by
  rw [Free, Calls, DeclaresEnum, Annotates, (h.calls x).found, (h.types x).found, (h.enums x).found,
    mem_freeNames]

end Told

/-- A token that no mention goes over. -/
def Token.isBreak : Token → Bool
  | .literal => true
  | .sign c => !"():=>".toList.contains c
  | _ => false

theorem Token.isBreak_not_mem {t : Token} (h : t.isBreak = true) {w : List Token}
    (hw : ∀ u ∈ w, u.isBreak = false) : t ∉ w := by
  intro hmem
  rw [hw t hmem] at h
  cases h

/-- Behind a break it is enough to look for the mentions. -/
theorem Told.of_found {ts : List Token} {mentions : List Mention}
    (hclosed : ts.getLast?.all Token.isBreak = true)
    (hcalls : ∀ x, Calls ts x ↔ .call x ∈ mentions)
    (htypes : ∀ x, Annotates ts x ↔ .type x ∈ mentions)
    (henums : ∀ x, DeclaresEnum ts x ↔ .enum x ∈ mentions)
    (order : (mentions.map Mention.token).Sublist ts) : Told ts mentions := by
  have hbreak : ∀ w : List Token, (∀ u ∈ w, u.isBreak = false) → ∀ t ∈ ts.getLast?, t ∉ w := by
    intro w hw t ht
    rw [Option.mem_def.mp ht] at hclosed
    exact Token.isBreak_not_mem hclosed hw
  exact
    { calls := fun x => ⟨hcalls x, hbreak _ (by simp [Token.isBreak])⟩
      types := fun x => ⟨htypes x, hbreak _ (by simp [Token.isBreak])⟩
      enums := fun x => ⟨henums x, hbreak _ (by simp [Token.isBreak])⟩
      order }

/-- No name stands before a parenthesis that opens or before an equals sign. -/
def areQuiet : List Token → Bool
  | .name _ :: .sign c :: ts => c != '(' && c != '=' && areQuiet ts
  | _ :: ts => areQuiet ts
  | [] => true

theorem not_infix_of_areQuiet {ts : List Token} (h : areQuiet ts = true) {x : List Char} {c : Char}
    (hc : c = '(' ∨ c = '=') : ¬ [.name x, .sign c] <:+: ts := by
  fun_induction areQuiet ts with
  | case1 y d ts ih =>
    simp only [Bool.and_eq_true, bne_iff_ne] at h
    have hsign : ¬ [Token.name x, .sign c] <+: .sign d :: ts := by simp [List.cons_prefix_cons]
    have hname : c ≠ d := by grind
    rw [List.infix_cons_iff, List.infix_cons_iff]
    simpa [List.cons_prefix_cons, hname] using ih h.2
  | case2 t ts hne ih =>
    rw [List.infix_cons_iff, or_iff_right]
    · exact ih h
    · rintro ⟨rest, hrest⟩
      cases hrest
      exact hne x c rest rfl rfl
  | case3 => simp

/-- Quiet tokens up to a break mention nothing. -/
theorem told_quiet {ts : List Token} (hquiet : areQuiet ts = true)
    (hclosed : ts.getLast?.all Token.isBreak = true) : Told ts [] := by
  have hequals : ∀ x, ¬ [.name x, .sign '='] <:+: ts := fun x =>
    not_infix_of_areQuiet hquiet (.inr rfl)
  refine .of_found hclosed (fun x => ?_) (fun x => ?_) (fun x => ?_) (List.nil_sublist _)
  · exact iff_of_false (not_infix_of_areQuiet hquiet (.inl rfl)) (by simp)
  · refine iff_of_false (fun h => hequals x.toList (.trans ?_ h)) (by simp)
    exact ⟨[.sign ')', .sign ':'], [.sign '>'], rfl⟩
  · refine iff_of_false (fun h => hequals x.toList (.trans ?_ h)) (by simp)
    exact ⟨[.name "const".toList], [.name "pgEnum".toList, .sign '('], rfl⟩

/-- The head of an entry whose value is made by a call. -/
theorem told_entry (key : List Char) (f : String) :
    Told [.name key, .sign ':', .name f.toList, .sign '(', .literal] [.call f] := by
  refine .of_found (by simp [Token.isBreak]) (fun x => ?_) (fun x => ?_) (fun x => ?_) ?_
  · simp [Calls, List.infix_cons_iff, List.cons_prefix_cons, String.toList_inj]
  · simp [Annotates, List.infix_cons_iff, List.cons_prefix_cons]
  · simp [DeclaresEnum, List.infix_cons_iff, List.cons_prefix_cons]
  · simp [Mention.token]

/-- The tokens of a declaration up to the first argument of its call. -/
def declarationHead (v f : String) : List Token :=
  [.name "export".toList, .name "const".toList, .name v.toList, .sign '=', .name f.toList, .sign '(',
    .literal]

theorem told_declaration {v f : String} (hf : f ≠ "pgEnum") :
    Told (declarationHead v f) [.call f] := by
  have hother : ['p', 'g', 'E', 'n', 'u', 'm'] ≠ f.toList := fun h =>
    hf (String.toList_inj.mp h.symm)
  unfold declarationHead
  refine .of_found (by simp [Token.isBreak]) (fun x => ?_) (fun x => ?_) (fun x => ?_) ?_
  · simp [Calls, List.infix_cons_iff, List.cons_prefix_cons, String.toList_inj]
  · simp [Annotates, List.infix_cons_iff, List.cons_prefix_cons]
  · simp [DeclaresEnum, List.infix_cons_iff, List.cons_prefix_cons, hother]
  · simp [Mention.token]

theorem told_enum (v : String) :
    Told (declarationHead v "pgEnum") [.enum v, .call "pgEnum"] := by
  unfold declarationHead
  refine .of_found (by simp [Token.isBreak]) (fun x => ?_) (fun x => ?_) (fun x => ?_) ?_
  · simp [Calls, List.infix_cons_iff, List.cons_prefix_cons, ← String.toList_inj]
  · simp [Annotates, List.infix_cons_iff, List.cons_prefix_cons]
  · simp [DeclaresEnum, List.infix_cons_iff, List.cons_prefix_cons, String.toList_inj]
  · simp [Mention.token]

/-! ## The mentions of a text -/

/-- A text that reads as code and tells its mentions whatever stands around it. -/
def Mentions (s : List Char) (mentions : List Mention) : Prop :=
  ∃ ts, Reading s ts ∧ Told ts mentions

namespace Mentions

variable {s s' : List Char} {mentions mentions' : List Mention}

theorem append (h : Mentions s mentions) (h' : Mentions s' mentions') :
    Mentions (s ++ s') (mentions ++ mentions') := by
  obtain ⟨ts, hread, htold⟩ := h
  obtain ⟨ts', hread', htold'⟩ := h'
  exact ⟨ts ++ ts', hread.append hread', htold.append htold'⟩

theorem nil : Mentions [] [] := ⟨[], .nil, .nil⟩

theorem flatMap {α : Type} {f : α → List Char} {g : α → List Mention} {as : List α}
    (h : ∀ a ∈ as, Mentions (f a) (g a)) : Mentions (as.flatMap f) (as.flatMap g) := by
  induction as with
  | nil => exact nil
  | cons a as ih =>
    rw [List.flatMap_cons, List.flatMap_cons]
    exact (h a (by simp)).append (ih fun b hb => h b (List.mem_cons_of_mem _ hb))

theorem free_iff (h : Mentions s mentions) (x : String) :
    Free (tokens s) x ↔ x ∈ freeNames mentions := by
  obtain ⟨ts, hread, htold⟩ := h
  rw [hread.tokens]
  exact htold.free_iff x

/-- Free names stand in the code in the order of their mentions. -/
theorem freeNames_sublist (h : Mentions s mentions) :
    ((freeNames mentions).map fun x => Token.name x.toList).Sublist (tokens s) := by
  obtain ⟨ts, hread, htold⟩ := h
  rw [hread.tokens]
  exact (freeNames_tokens mentions).trans htold.order

end Mentions

/-- A text that reads as quiet code up to a break. -/
def isMute (s : List Char) : Bool :=
  (scan (.code false) s).2 == .code false && areQuiet (scan (.code false) s).1 &&
    (scan (.code false) s).1.getLast?.all Token.isBreak

theorem mentions_mute {s : List Char} (h : isMute s = true) : Mentions s [] := by
  simp only [isMute, Bool.and_eq_true, beq_iff_eq] at h
  obtain ⟨⟨hplace, hquiet⟩, hclosed⟩ := h
  exact ⟨(scan (.code false) s).1, Prod.ext rfl hplace, told_quiet hquiet hclosed⟩

/-- What a literal holds is no mention. -/
theorem mentions_jsonLiteral (value : String) : Mentions (jsonLiteral value).toList [] :=
  ⟨[.literal], reading_jsonLiteral value, told_quiet rfl rfl⟩

end SchemaScaffold.Source
