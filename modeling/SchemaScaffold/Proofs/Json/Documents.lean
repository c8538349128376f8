import SchemaScaffold.Json.Parser
import SchemaScaffold.Json.Relaxed
import SchemaScaffold.Proofs.Outcome
import Mathlib.Data.List.Chain

/-!
JSON documents. A grammar over tokens says which texts are JSON, and the reader accepts exactly those,
up to its two limits: what it reads is a document, and a document that it does not read meets a
limit. In a document no two lexemes stand side by side without a mark, and no comma stands before a
closing bracket.
-/

namespace SchemaScaffold.Json

/-- What a run of tokens spells: one value, the items of a list, or the entries of a record. -/
inductive Phrase
  | value
  | items
  | entries

namespace Phrase

/-- The grammar of JSON. The brackets of a list or a record belong to the value. -/
inductive Derives : Phrase → List Token → Prop
  | text {body : List Char} (legible : (literalUnits? body).isSome) :
    Derives .value [.string body]
  | number (n : NumberText) : Derives .value [.number n]
  | name (s : String) : Derives .value [.name s]
  | emptyList : Derives .value [.mark '[', .mark ']']
  | list {ts : List Token} (items : Derives .items ts) :
    Derives .value (.mark '[' :: (ts ++ [.mark ']']))
  | emptyRecord : Derives .value [.mark '{', .mark '}']
  | record {ts : List Token} (entries : Derives .entries ts) :
    Derives .value (.mark '{' :: (ts ++ [.mark '}']))
  | item {ts : List Token} (value : Derives .value ts) : Derives .items ts
  | moreItems {ts us : List Token} (value : Derives .value ts) (items : Derives .items us) :
    Derives .items (ts ++ .mark ',' :: us)
  | entry {body : List Char} {ts : List Token} (legible : (literalUnits? body).isSome)
    (value : Derives .value ts) : Derives .entries (.string body :: .mark ':' :: ts)
  | moreEntries {body : List Char} {ts us : List Token} (legible : (literalUnits? body).isSome)
    (value : Derives .value ts) (entries : Derives .entries us) :
    Derives .entries (.string body :: .mark ':' :: (ts ++ .mark ',' :: us))

end Phrase

/-- Whether a text is JSON. -/
def IsDocument (s : String) : Prop := Phrase.value.Derives (tokens s.toList)

/-! ## What is read is a document -/

theorem literal_ok {body : List Char} {units : List UInt16} (h : literal body = .ok units) :
    (literalUnits? body).isSome := by
  unfold literal at h
  split at h
  · rename_i hunits
    simp [hunits]
  · cases h

/-- What the reader of a value takes off the tokens is a value. -/
def ReadsValue (n : Nat) : Prop :=
  ∀ {levels : Nat} {ts rest : List Token} {v : Value}, readValue n levels ts = .ok (v, rest) →
    ∃ read, Phrase.value.Derives read ∧ ts = read ++ rest

/-- What the reader of items takes off the tokens are items and the bracket behind them. -/
def ReadsItems (n : Nat) : Prop :=
  ∀ {levels : Nat} {ts rest : List Token} {vs : List Value}, readItems n levels ts = .ok (vs, rest) →
    ∃ read, Phrase.items.Derives read ∧ ts = read ++ .mark ']' :: rest

/-- What the reader of entries takes off the tokens are entries and the bracket behind them. -/
def ReadsEntries (n : Nat) : Prop :=
  ∀ {levels : Nat} {before entries : Entries} {ts rest : List Token},
    readEntries n levels before ts = .ok (entries, rest) →
    ∃ read, Phrase.entries.Derives read ∧ ts = read ++ .mark '}' :: rest

theorem readsValue_succ {n : Nat} (hitems : ReadsItems n) (hentries : ReadsEntries n) :
    ReadsValue (n + 1) := by
  intro levels ts rest v h
  unfold readValue at h
  split at h
  · obtain ⟨inner, -, hrest⟩ := bind_ok h
    split at hrest
    · cases hrest
      exact ⟨_, .emptyList, rfl⟩
    · obtain ⟨⟨vs, behind⟩, hread, hend⟩ := bind_ok hrest
      cases hend
      obtain ⟨read, hderives, rfl⟩ := hitems hread
      exact ⟨_, .list hderives, by simp⟩
  · obtain ⟨inner, -, hrest⟩ := bind_ok h
    split at hrest
    · cases hrest
      exact ⟨_, .emptyRecord, rfl⟩
    · obtain ⟨⟨entries, behind⟩, hread, hend⟩ := bind_ok hrest
      cases hend
      obtain ⟨read, hderives, rfl⟩ := hentries hread
      exact ⟨_, .record hderives, by simp⟩
  · obtain ⟨units, hunits, hend⟩ := bind_ok h
    cases hend
    exact ⟨_, .text (literal_ok hunits), rfl⟩
  · obtain ⟨v', -, hend⟩ := bind_ok h
    cases hend
    exact ⟨_, .number _, rfl⟩
  · cases h
    exact ⟨_, .name _, rfl⟩
  · cases h

theorem readsItems_succ {n : Nat} (hvalue : ReadsValue n) (hitems : ReadsItems n) :
    ReadsItems (n + 1) := by
  intro levels ts rest vs h
  unfold readItems at h
  obtain ⟨⟨v, behind⟩, hread, hrest⟩ := bind_ok h
  obtain ⟨read, hderives, hts⟩ := hvalue hread
  dsimp only at hrest
  split at hrest
  · obtain ⟨⟨vs', behind'⟩, hmore, hend⟩ := bind_ok hrest
    cases hend
    obtain ⟨more, hitems, rfl⟩ := hitems hmore
    exact ⟨_, .moreItems hderives hitems, by simp [hts]⟩
  · cases hrest
    exact ⟨_, .item hderives, hts⟩
  · cases hrest

theorem readsEntries_succ {n : Nat} (hvalue : ReadsValue n) (hentries : ReadsEntries n) :
    ReadsEntries (n + 1) := by
  intro levels before entries ts rest h
  unfold readEntries at h
  split at h
  · obtain ⟨k, hk, hbody⟩ := bind_ok h
    obtain ⟨⟨v, behind⟩, hread, hrest⟩ := bind_ok hbody
    obtain ⟨read, hderives, rfl⟩ := hvalue hread
    dsimp only at hrest
    split at hrest
    · obtain ⟨more, hmore, rfl⟩ := hentries hrest
      exact ⟨_, .moreEntries (literal_ok hk) hderives hmore, by simp⟩
    · cases hrest
      exact ⟨_, .entry (literal_ok hk) hderives, rfl⟩
    · cases hrest
  · cases h

theorem reads_all (n : Nat) : ReadsValue n ∧ ReadsItems n ∧ ReadsEntries n := by
  induction n with
  | zero => exact ⟨nofun, nofun, nofun⟩
  | succ n ih =>
    exact ⟨readsValue_succ ih.2.1 ih.2.2, readsItems_succ ih.1 ih.2.1, readsEntries_succ ih.1 ih.2.2⟩

theorem IsDocument.of_parse {s : String} {v : Value} (h : parse s = .ok v) : IsDocument s := by
  unfold parse at h
  obtain ⟨⟨v', rest⟩, hread, h⟩ := bind_ok h
  dsimp only at h
  split at h
  · rename_i hempty
    obtain ⟨read, hderives, hts⟩ := (reads_all _).1 hread
    rw [List.isEmpty_iff.mp hempty, List.append_nil] at hts
    rw [IsDocument, hts]
    exact hderives
  · cases h

/-! ## What stands side by side in a document -/

/-- Whether a token closes a list or a record. -/
def Token.closes : Token → Bool
  | .mark c => isClosingBracket c
  | _ => false

/-- Whether a token stands for itself, beside any other. -/
def Token.marks : Token → Bool
  | .mark _ => true
  | _ => false

/-- Which token may come after which: a mark parts any two others, and a comma is not the last thing
in a list or a record. -/
def Token.Precedes (t u : Token) : Prop :=
  (t.marks ∨ u.marks) ∧ ¬ (t = .mark ',' ∧ u.closes)

/-- A run of tokens that starts as a value does, ends in no comma, and has only neighbours that may
stand together. -/
structure WellSpaced (ts : List Token) : Prop where
  starts : ∃ t ∈ ts.head?, ¬ t.closes
  ends : ∀ t ∈ ts.getLast?, t ≠ .mark ','
  chain : ts.IsChain Token.Precedes
  legible : .bad ∉ ts

namespace WellSpaced

theorem single {t : Token} (hcloses : ¬ t.closes) (hcomma : t ≠ .mark ',') (hbad : t ≠ .bad) :
    WellSpaced [t] where
  starts := ⟨t, rfl, hcloses⟩
  ends := by simpa using hcomma
  chain := .singleton t
  legible := by simpa using hbad.symm

variable {ts us : List Token} {c : Char}

/-- A mark and a run behind it. -/
theorem cons_mark (h : WellSpaced us) : (Token.mark c :: us).IsChain Token.Precedes := by
  obtain ⟨u, hu, hcloses⟩ := h.starts
  refine List.isChain_cons.mpr ⟨fun y hy => ?_, h.chain⟩
  rw [Option.mem_def] at hu hy
  cases hu.symm.trans hy
  exact ⟨.inl rfl, fun hboth => hcloses hboth.2⟩

/-- A run between two brackets. -/
theorem bracketed {d : Char} (h : WellSpaced ts) (hopen : ¬ (Token.mark c).closes)
    (hd : d ≠ ',') : WellSpaced (.mark c :: (ts ++ [.mark d])) where
  starts := ⟨_, rfl, hopen⟩
  ends := by
    rw [← List.cons_append, List.getLast?_concat]
    rintro t ⟨⟩
    simpa using hd
  chain := by
    rw [← List.cons_append]
    refine List.isChain_append.mpr ⟨h.cons_mark, .singleton _, fun x hx y hy => ?_⟩
    obtain ⟨t, hhead, -⟩ := h.starts
    have hne : ts ≠ [] := by
      rintro rfl
      cases hhead
    rw [List.getLast?_cons, List.getLast?_eq_some_getLast hne] at hx
    cases hx
    cases hy
    exact ⟨.inr rfl, fun hboth => h.ends _ (List.getLast?_eq_some_getLast hne) hboth.1⟩
  legible := by simpa using h.legible

/-- Two runs with a mark between them that does not close anything. -/
theorem joined (ht : WellSpaced ts) (hu : WellSpaced us) (hc : ¬ (Token.mark c).closes) :
    WellSpaced (ts ++ .mark c :: us) where
  starts := by
    obtain ⟨t, hhead, hcloses⟩ := ht.starts
    exact ⟨t, by simp [Option.mem_def.mp hhead], hcloses⟩
  ends := by
    obtain ⟨u, hhead, -⟩ := hu.starts
    have hne : us ≠ [] := by
      rintro rfl
      cases hhead
    intro x hx
    rw [List.getLast?_append_cons, List.getLast?_cons_of_ne_nil hne] at hx
    exact hu.ends x hx
  chain := by
    refine List.isChain_append.mpr ⟨ht.chain, hu.cons_mark, fun x _ y hy => ?_⟩
    cases hy
    exact ⟨.inr rfl, fun hboth => hc hboth.2⟩
  legible := by simp [ht.legible, hu.legible]

end WellSpaced

theorem Phrase.Derives.wellSpaced {p : Phrase} {ts : List Token} (h : p.Derives ts) :
    WellSpaced ts := by
  have hstring (body : List Char) : WellSpaced [.string body] := .single nofun nofun nofun
  induction h with
  | text => exact hstring _
  | number n => exact .single nofun nofun nofun
  | name s => exact .single nofun nofun nofun
  | emptyList =>
    exact ⟨⟨_, rfl, by decide⟩, by simp, .cons_cons ⟨.inl rfl, by simp⟩ (.singleton _), by simp⟩
  | list _ ih => exact ih.bracketed (by decide) (by decide)
  | emptyRecord =>
    exact ⟨⟨_, rfl, by decide⟩, by simp, .cons_cons ⟨.inl rfl, by simp⟩ (.singleton _), by simp⟩
  | record _ ih => exact ih.bracketed (by decide) (by decide)
  | item _ ih => exact ih
  | moreItems _ _ iht ihu => exact iht.joined ihu (by decide)
  | entry _ _ ih => exact (hstring _).joined ih (by decide)
  | moreEntries _ _ _ iht ihu =>
    exact (hstring _).joined (iht.joined ihu (by decide)) (by decide)

/-! ## Documents are read, up to the limits -/

/-- Whether a reader got to the tokens behind what it was to read, unless it met a limit. -/
def Reaches {α : Type} (rest : List Token) : Except ReadError (α × List Token) → Prop
  | .ok (_, behind) => behind = rest
  | .error e => e ≠ .malformed

section Reaches

variable {α β γ : Type} {rest : List Token}

theorem Reaches.bind {x : Except ReadError (α × List Token)} {behind : List Token}
    {k : α × List Token → Except ReadError (β × List Token)} (hx : Reaches behind x)
    (hk : ∀ a, Reaches rest (k (a, behind))) : Reaches rest (x >>= k) := by
  match x, hx with
  | .error e, hx => exact hx
  | .ok (a, _), rfl => exact hk a

theorem Reaches.bind_value {x : Except ReadError γ} {k : γ → Except ReadError (β × List Token)}
    (hx : ∀ e, x = .error e → e ≠ .malformed) (hk : ∀ a, Reaches rest (k a)) :
    Reaches rest (x >>= k) := by
  cases x with
  | error e => exact hx e rfl
  | ok a => exact hk a

end Reaches

theorem literal_legible {body : List Char} (h : (literalUnits? body).isSome) :
    ∃ units, literal body = .ok units := by
  obtain ⟨units, hunits⟩ := Option.isSome_iff_exists.mp h
  exact ⟨units, by rw [literal, hunits]⟩

theorem NumberText.value_error {n : NumberText} {e : ReadError} (h : n.value = .error e) :
    e ≠ .malformed := by
  unfold NumberText.value at h
  split at h
  · split at h <;> cases h
    exact nofun
  · cases h

theorem inside_error {levels : Nat} {e : ReadError} (h : inside levels = .error e) :
    e ≠ .malformed := by
  cases levels with
  | zero =>
    cases h
    exact nofun
  | succ levels => cases h

/-- What the reader of a phrase does with the tokens of one, given calls enough. -/
def Phrase.Read (ts rest : List Token) : Phrase → Prop
  | .value => ∀ {n levels : Nat}, 2 * ts.length ≤ n → Reaches rest (readValue n levels (ts ++ rest))
  | .items => ∀ {n levels : Nat}, 2 * ts.length < n →
    Reaches rest (readItems n levels (ts ++ .mark ']' :: rest))
  | .entries => ∀ {n levels : Nat} {before : Entries}, 2 * ts.length < n →
    Reaches rest (readEntries n levels before (ts ++ .mark '}' :: rest))

theorem readValue_list {n levels : Nat} {ts rest : List Token} (h : WellSpaced ts) :
    readValue (n + 1) levels (.mark '[' :: (ts ++ rest)) =
      (inside levels >>= fun levels => readItems n levels (ts ++ rest) >>= fun (vs, rest) =>
        pure (.list vs, rest)) := by
  obtain ⟨t, hhead, hcloses⟩ := h.starts
  obtain ⟨ts, rfl⟩ := List.head?_eq_some_iff.mp hhead
  rw [readValue]
  congr 1
  funext levels
  split
  · rename_i htail
    cases htail
    exact absurd rfl hcloses
  · rfl

theorem readValue_record {n levels : Nat} {ts rest : List Token} (h : WellSpaced ts) :
    readValue (n + 1) levels (.mark '{' :: (ts ++ rest)) =
      (inside levels >>= fun levels => readEntries n levels [] (ts ++ rest) >>= fun (es, rest) =>
        pure (.record es, rest)) := by
  obtain ⟨t, hhead, hcloses⟩ := h.starts
  obtain ⟨ts, rfl⟩ := List.head?_eq_some_iff.mp hhead
  rw [readValue]
  congr 1
  funext levels
  split
  · rename_i htail
    cases htail
    exact absurd rfl hcloses
  · rfl

/-- A phrase is read to its end: by induction on the phrase, with one call for each bracket, comma
and value on the way. -/
theorem Phrase.Derives.read {p : Phrase} {ts : List Token} (h : p.Derives ts) (rest : List Token) :
    p.Read ts rest := by
  induction h generalizing rest with
  | text legible =>
    intro n levels hn
    obtain ⟨n, rfl⟩ : ∃ k, n = k + 1 := ⟨n - 1, by simp at hn; omega⟩
    obtain ⟨units, hunits⟩ := literal_legible legible
    rw [List.singleton_append, readValue, hunits]
    rfl
  | number number =>
    intro n levels hn
    obtain ⟨n, rfl⟩ : ∃ k, n = k + 1 := ⟨n - 1, by simp at hn; omega⟩
    rw [List.singleton_append, readValue]
    exact .bind_value (fun e => NumberText.value_error) fun _ => rfl
  | name s =>
    intro n levels hn
    obtain ⟨n, rfl⟩ : ∃ k, n = k + 1 := ⟨n - 1, by simp at hn; omega⟩
    rfl
  | emptyList =>
    intro n levels hn
    obtain ⟨n, rfl⟩ : ∃ k, n = k + 1 := ⟨n - 1, by simp at hn; omega⟩
    rw [List.cons_append, List.singleton_append, readValue]
    exact .bind_value (fun e => inside_error) fun _ => rfl
  | list items ih =>
    intro n levels hn
    rw [List.length_cons, List.length_append, List.length_singleton] at hn
    obtain ⟨n, rfl⟩ : ∃ k, n = k + 1 := ⟨n - 1, by omega⟩
    rw [List.cons_append, List.append_assoc, List.singleton_append, readValue_list items.wellSpaced]
    refine .bind_value (fun e => inside_error) fun levels => ?_
    exact (ih rest (by omega)).bind fun _ => rfl
  | emptyRecord =>
    intro n levels hn
    obtain ⟨n, rfl⟩ : ∃ k, n = k + 1 := ⟨n - 1, by simp at hn; omega⟩
    rw [List.cons_append, List.singleton_append, readValue]
    exact .bind_value (fun e => inside_error) fun _ => rfl
  | record entries ih =>
    intro n levels hn
    rw [List.length_cons, List.length_append, List.length_singleton] at hn
    obtain ⟨n, rfl⟩ : ∃ k, n = k + 1 := ⟨n - 1, by omega⟩
    rw [List.cons_append, List.append_assoc, List.singleton_append,
      readValue_record entries.wellSpaced]
    refine .bind_value (fun e => inside_error) fun levels => ?_
    exact (ih rest (by omega)).bind fun _ => rfl
  | item value ih =>
    intro n levels hn
    obtain ⟨n, rfl⟩ : ∃ k, n = k + 1 := ⟨n - 1, by omega⟩
    rw [readItems]
    exact (ih _ (by omega)).bind fun _ => rfl
  | moreItems value items iht ihu =>
    intro n levels hn
    rw [List.length_append, List.length_cons] at hn
    obtain ⟨n, rfl⟩ : ∃ k, n = k + 1 := ⟨n - 1, by omega⟩
    rw [List.append_assoc, readItems]
    refine (iht _ (by omega)).bind fun v => ?_
    exact (ihu rest (by omega)).bind fun _ => rfl
  | entry legible value ih =>
    intro n levels before hn
    rw [List.length_cons, List.length_cons] at hn
    obtain ⟨n, rfl⟩ : ∃ k, n = k + 1 := ⟨n - 1, by omega⟩
    obtain ⟨units, hunits⟩ := literal_legible legible
    rw [List.cons_append, List.cons_append, readEntries, hunits]
    exact (ih _ (by omega)).bind fun _ => rfl
  | moreEntries legible value entries iht ihu =>
    intro n levels before hn
    rw [List.length_cons, List.length_cons, List.length_append, List.length_cons] at hn
    obtain ⟨n, rfl⟩ : ∃ k, n = k + 1 := ⟨n - 1, by omega⟩
    obtain ⟨units, hunits⟩ := literal_legible legible
    rw [List.cons_append, List.cons_append, List.append_assoc, readEntries, hunits]
    refine (iht _ (by omega)).bind fun v => ?_
    exact ihu rest (by omega)

/-- A text is malformed only if it is no document. -/
theorem IsDocument.parse_ne {s : String} (h : IsDocument s) : parse s ≠ .error .malformed := by
  have hread : Reaches [] (readValue (2 * (tokens s.toList).length + 1) nestingLimit (tokens s.toList ++ [])) :=
    h.read [] (Nat.le_succ _)
  rw [List.append_nil] at hread
  rw [parse]
  cases hv : readValue (2 * (tokens s.toList).length + 1) nestingLimit (tokens s.toList) with
  | error e =>
    rw [hv] at hread
    exact fun he => hread (Except.error.inj he)
  | ok read =>
    obtain ⟨v, rest⟩ := read
    rw [hv] at hread
    cases hread
    exact nofun

/-- What is not read is no document, or meets a limit. -/
theorem isDocument_iff {s : String} (hdigits : parse s ≠ .error .integerTooLong)
    (hdepth : parse s ≠ .error .nestedTooDeeply) : IsDocument s ↔ ∃ v, parse s = .ok v := by
  refine ⟨fun h => ?_, fun ⟨v, hv⟩ => .of_parse hv⟩
  have hne := h.parse_ne
  cases hv : parse s with
  | ok v => exact ⟨v, rfl⟩
  | error e => cases e <;> contradiction

end SchemaScaffold.Json
