import SchemaScaffold.Proofs.Source.Words
import SchemaScaffold.Proofs.Text.Occurrences
import SchemaScaffold.Source.Lexeme
import SchemaScaffold.Text.Quoted

/-!
The tokens of generated code: names, signs, and string literals without what is in them. A name that
a dot or `new` stands before is told apart from one that stands by itself. The free names of a code
are read off its tokens: the functions that it calls by their bare name, unless it declares them as
enums itself, and the types that it gives to callbacks.
-/

namespace SchemaScaffold.Source

open Text

inductive Token
  | name (x : List Char)
  /-- A name that belongs to what stands before it: a dot, or `new`. -/
  | member (x : List Char)
  | literal
  | sign (c : Char)
  deriving DecidableEq, Repr

/-- Where a reader of tokens stands. In code and in a name it knows whether a dot or `new` came
before. -/
inductive Spot
  | code (owned : Bool)
  | name (owned : Bool) (w : List Char)
  | literal (quote : Char)
  | escape (quote : Char)
  deriving DecidableEq, Repr

def isNamePart (c : Char) : Bool := isWordChar c || c == '$'

/-- A character of code that no name goes on with. -/
def Spot.between (owned : Bool) (c : Char) : List Token × Spot :=
  if isQuote c then ([], .literal c)
  else if isBlank c then ([], .code owned)
  else ([.sign c], .code (c == '.'))

def Token.word (owned : Bool) (w : List Char) : Token := if owned then .member w else .name w

/-- One character read: the tokens that it completes, and where the reader stands after it. -/
def Spot.step : Spot → Char → List Token × Spot
  | .code owned, c => if isNamePart c then ([], .name owned [c]) else between owned c
  | .name owned w, c =>
    if isNamePart c then ([], .name owned (w ++ [c]))
    else
      let (tokens, spot) := between (!owned && w == "new".toList) c
      (.word owned w :: tokens, spot)
  | .literal quote, c =>
    if c == '\\' then ([], .escape quote)
    else if c == quote then ([.literal], .code false)
    else ([], .literal quote)
  | .escape quote, _ => ([], .literal quote)

/-- The tokens that reading a text completes, and where the reader stands after it. -/
def scan : Spot → List Char → List Token × Spot
  | p, [] => ([], p)
  | p, c :: cs => ((p.step c).1 ++ (scan (p.step c).2 cs).1, (scan (p.step c).2 cs).2)

/-- The token that the end of the text completes. -/
def Spot.pending : Spot → List Token
  | .name owned w => [.word owned w]
  | _ => []

def tokens (cs : List Char) : List Token :=
  (scan (.code false) cs).1 ++ (scan (.code false) cs).2.pending

/-! ## Free names -/

/-- The code calls a function by its bare name. -/
def Calls (code : List Token) (x : String) : Prop := [.name x.toList, .sign '('] <:+: code

/-- The code declares a constant that is a native enum. -/
def DeclaresEnum (code : List Token) (x : String) : Prop :=
  [.name "const".toList, .name x.toList, .sign '=', .name "pgEnum".toList, .sign '('] <:+: code

/-- The code has a callback whose value is of the type. -/
def Annotates (code : List Token) (x : String) : Prop :=
  [.sign ')', .sign ':', .name x.toList, .sign '=', .sign '>'] <:+: code

/-- A name that the code has to get from elsewhere. -/
def Free (code : List Token) (x : String) : Prop :=
  (Calls code x ∧ ¬ DeclaresEnum code x) ∨ Annotates code x

/-! ## Readings -/

theorem scan_append (p : Spot) (a b : List Char) : scan p (a ++ b) =
    ((scan p a).1 ++ (scan (scan p a).2 b).1, (scan (scan p a).2 b).2) := by
  induction a generalizing p with
  | nil => rfl
  | cons c a ih => simp only [List.cons_append, scan, ih, List.append_assoc]

/-- A text that is read from code to code, without anything before or after that its ends belong
to. -/
def Reading (s : List Char) (ts : List Token) : Prop := scan (.code false) s = (ts, .code false)

instance (s : List Char) (ts : List Token) : Decidable (Reading s ts) :=
  inferInstanceAs (Decidable (_ = _))

namespace Reading

variable {s s' : List Char} {ts ts' : List Token}

theorem append (h : Reading s ts) (h' : Reading s' ts') : Reading (s ++ s') (ts ++ ts') := by
  unfold Reading at h h' ⊢
  rw [scan_append, h, h']

theorem nil : Reading [] [] := rfl

theorem tokens (h : Reading s ts) : Source.tokens s = ts := by
  rw [Source.tokens, h]
  exact List.append_nil ts

end Reading

theorem scan_name {owned : Bool} {w x : List Char} (h : ∀ c ∈ x, isNamePart c = true) :
    scan (.name owned w) x = ([], .name owned (w ++ x)) := by
  induction x generalizing w with
  | nil => simp [scan]
  | cons c x ih =>
    have hc : isNamePart c = true := h c (by simp)
    simp [scan, Spot.step, hc, ih fun d hd => h d (List.mem_cons_of_mem _ hd)]

/-- A name that code begins with. -/
theorem scan_front {x : List Char} (h : ∀ c ∈ x, isNamePart c = true) (hne : x ≠ []) :
    scan (.code false) x = ([], .name false x) := by
  obtain ⟨c, x, rfl⟩ := List.exists_cons_of_ne_nil hne
  have hc : isNamePart c = true := h c (by simp)
  simp [scan, Spot.step, hc, scan_name fun d hd => h d (List.mem_cons_of_mem _ hd)]

theorem reading_name {x rest : List Char} {ts : List Token} (h : ∀ c ∈ x, isNamePart c = true)
    (hne : x ≠ []) (hrest : scan (.name false x) rest = (ts, .code false)) :
    Reading (x ++ rest) ts := by
  unfold Reading
  rw [scan_append, scan_front h hne, hrest]
  rfl

theorem scan_literal {quote : Char} {body : List Char}
    (h : ∀ c ∈ body, c ≠ '\\' ∧ c ≠ quote) :
    scan (.literal quote) body = ([], .literal quote) := by
  induction body with
  | nil => rfl
  | cons c body ih =>
    obtain ⟨hescape, hquote⟩ := h c (by simp)
    simp [scan, Spot.step, hescape, hquote, ih fun d hd => h d (List.mem_cons_of_mem _ hd)]

/-- A call up to its first argument, a plain literal. -/
theorem reading_call {f body : List Char} (hf : ∀ c ∈ f, isNamePart c = true) (hne : f ≠ [])
    (hbody : ∀ c ∈ body, c ≠ '\\' ∧ c ≠ '"') :
    Reading (f ++ ("(\"".toList ++ (body ++ "\"".toList))) [.name f, .sign '(', .literal] := by
  refine reading_name hf hne ?_
  rw [scan_append, scan_append]
  have hopen : scan (.name false f) "(\"".toList = ([.name f, .sign '('], .literal '"') := rfl
  rw [hopen, scan_literal hbody]
  rfl

/-- However a character is written in a literal, the literal goes on after it. -/
theorem scan_jsonChar (c : Char) : scan (.literal '"') (jsonChar c) = ([], .literal '"') := by
  have hdigit : ∀ n, hexDigit (n % 16) ≠ '\\' ∧ hexDigit (n % 16) ≠ '"' := by
    have hall : ∀ n : Fin 16, hexDigit n ≠ '\\' ∧ hexDigit n ≠ '"' := by decide
    exact fun n => hall ⟨n % 16, by omega⟩
  unfold jsonChar
  split
  iterate 7 rfl
  · rename_i h1 h2 _ _ _ _ _
    split
    · simp [unicodeEscape, scan, Spot.step, hdigit]
    · simp [scan, Spot.step, show c ≠ '"' from h1, show c ≠ '\\' from h2]

theorem reading_jsonLiteral (value : String) : Reading (jsonLiteral value).toList [.literal] := by
  have hbody : ∀ cs : List Char,
      scan (.literal '"') (cs.flatMap jsonChar) = ([], .literal '"') := by
    intro cs
    induction cs with
    | nil => rfl
    | cons c cs ih => rw [List.flatMap_cons, scan_append, scan_jsonChar, ih]; rfl
  have hopen : scan (.code false) ['"'] = ([], .literal '"') := by decide
  rw [jsonLiteral, String.toList_ofList]
  unfold Reading
  rw [← List.singleton_append, List.append_assoc, scan_append, hopen, scan_append, hbody]
  rfl

end SchemaScaffold.Source
