import Mathlib
import SchemaScaffold.Project.Detection
import SchemaScaffold.Proofs.Json.Decorations
import SchemaScaffold.Proofs.Json.LongIntegers
import SchemaScaffold.Proofs.Text.LineFeeds

/-!
The alias of a project, read from a compiler configuration that may be relaxed JSON. Whatever
decorations such a file has, it names the alias that the plain document names: the one of the first
path key that fits. Two things are outside that: white space that is none of JSON's, and a document
that meets a limit of the reader.
-/

namespace SchemaScaffold.Detection

open Text Json

/-! ## Path keys -/

/-- Whether a path key names an alias: it starts with the alias and a slash, and the alias is `~`, or
an `@` with a word behind it. -/
def NamesAlias (key a : List Char) : Prop :=
  (∃ word rest, (∀ c ∈ word, isWordChar c = true) ∧ a = '@' :: word ∧ key = a ++ '/' :: rest) ∨
    ∃ rest, a = ['~'] ∧ key = a ++ '/' :: rest

/-- The alias of the first key that names one, or the default if none does. -/
def FirstAlias (keys : List (List UInt16)) (a : String) : Prop :=
  (∃ before k after, keys = before ++ k :: after ∧ NamesAlias (charsOf k) a.toList ∧
    ∀ b ∈ before, ∀ cs, ¬ NamesAlias (charsOf b) cs) ∨
  (a = "@" ∧ ∀ k ∈ keys, ∀ cs, ¬ NamesAlias (charsOf k) cs)

theorem aliasPrefix?_eq_some_iff {key a : List Char} : aliasPrefix? key = some a ↔ NamesAlias key a := by
  constructor
  · intro h
    unfold aliasPrefix? at h
    split at h
    · rename_i rest
      split at h
      · rename_i hslash
        cases h
        obtain ⟨behind, hbehind⟩ := List.head?_eq_some_iff.mp (beq_iff_eq.mp hslash)
        refine .inl ⟨rest.takeWhile isWordChar, behind, fun c hc => ?_, rfl, ?_⟩
        · exact List.all_eq_true.mp List.all_takeWhile c hc
        · rw [List.cons_append, ← hbehind, List.takeWhile_append_dropWhile]
      · cases h
    · cases h
      exact .inr ⟨_, rfl, rfl⟩
    · cases h
  · rintro (⟨word, rest, hword, rfl, rfl⟩ | ⟨rest, rfl, rfl⟩)
    · have hslash : ¬ isWordChar '/' = true := by decide
      rw [List.cons_append, aliasPrefix?, List.dropWhile_append_of_pos hword,
        List.dropWhile_cons_of_neg hslash, if_pos (by simp), List.takeWhile_append_of_pos hword,
        List.takeWhile_cons_of_neg hslash, List.append_nil]
    · rfl

theorem aliasPrefix?_eq_none_iff {key : List Char} :
    aliasPrefix? key = none ↔ ∀ a, ¬ NamesAlias key a := by
  rw [Option.eq_none_iff_forall_ne_some]
  exact forall_congr' fun a => not_congr aliasPrefix?_eq_some_iff

theorem firstAlias_spec (keys : List (List UInt16)) : FirstAlias keys (firstAlias keys) := by
  unfold firstAlias
  split
  · rename_i a hfound
    obtain ⟨before, k, after, hsplit, hk, hbefore⟩ := List.findSome?_eq_some_iff.mp hfound
    refine .inl ⟨before, k, after, hsplit, ?_, fun b hb => ?_⟩
    · rw [String.toList_ofList]
      exact aliasPrefix?_eq_some_iff.mp hk
    · exact aliasPrefix?_eq_none_iff.mp (hbefore b hb)
  · rename_i hnone
    refine .inr ⟨rfl, fun k hk => ?_⟩
    exact aliasPrefix?_eq_none_iff.mp (List.findSome?_eq_none_iff.mp hnone k hk)

/-! ## The compiler configuration -/

theorem exists_of_read {t : Tree} {p : Path} {content : Option String} (h : t.read p = .ok content) :
    t.exists? p = true := by
  unfold Tree.read at h
  unfold Tree.exists?
  cases hp : t.locate p with
  | found place node => rfl
  | free place =>
    rw [hp] at h
    cases h
  | nowhere fault =>
    rw [hp] at h
    cases h

theorem importAlias_of_read {t : Tree} {root : Path} {s : String}
    (h : t.read (root ++ [aliasFile]) = .ok (some s)) :
    importAlias t root =
      match parse (strict s) with
      | .error .malformed => .ok defaultAlias
      | .error .integerTooLong => .error .integerTooLong
      | .error .nestedTooDeeply => .error .nestedTooDeeply
      | .ok config => (aliasOfConfig config).mapError .shape := by
  rw [importAlias, exists_of_read h, h]
  rfl

/-- A configuration whose options and paths are records has the alias of its path keys. -/
theorem aliasOfConfig_records {config options paths : Entries}
    (hoptions : config.get? (key "compilerOptions") = some (.record options))
    (hpaths : options.get? (key "paths") = some (.record paths)) :
    aliasOfConfig (.record config) = .ok (firstAlias (paths.map (·.1))) := by
  have hgiven : (Value.record options).isGiven = true := by
    cases options with
    | nil => cases hpaths
    | cons entry options => rfl
  have hsub : config.subrecord "compilerOptions" = .ok options := by
    rw [Entries.subrecord, hoptions]
    simp only [hgiven, if_true]
    rfl
  rw [aliasOfConfig, hsub]
  show aliasOfPaths ((options.get? (key "paths")).getD .null) = _
  rw [hpaths, Option.getD_some]
  cases paths with
  | nil => rfl
  | cons entry paths => rfl

/-! ## Decorations -/

/-- Comments, blanks and commas before closing brackets change nothing: the strict text of a decorated
document has the tokens of the document, so that its project has the alias that the plain document
gives, or fails as it does. That is the alias of the first path key that names one. -/
theorem importAlias_decorated {doc text : String} (hdoc : IsDocument doc)
    (htext : Decorated (Gap isJsonBlank) (tokens doc.toList) text.toList) :
    tokens (strict text).toList = tokens doc.toList ∧
      ∀ (t t' : Tree) (root root' : Path), t.read (root ++ [aliasFile]) = .ok (some text) →
        t'.read (root' ++ [aliasFile]) = .ok (some doc) →
        importAlias t root = importAlias t' root' ∧
          ∀ config options paths : Entries, parse doc = .ok (.record config) →
            config.get? (key "compilerOptions") = some (.record options) →
            options.get? (key "paths") = some (.record paths) →
            ∃ a, importAlias t root = .ok a ∧ FirstAlias (paths.map (·.1)) a := by
  have htokens := tokens_strict hdoc htext
  refine ⟨htokens, fun t t' root root' hread hread' => ⟨?_, ?_⟩⟩
  · have hplain := tokens_strict hdoc (decorated_document (fun c hc => hc) hdoc)
    rw [importAlias_of_read hread, importAlias_of_read hread', parse_congr (htokens.trans hplain.symm)]
  · intro config options paths hparse hoptions hpaths
    refine ⟨_, ?_, firstAlias_spec _⟩
    rw [importAlias_of_read hread, parse_congr htokens, hparse]
    dsimp only
    rw [aliasOfConfig_records hoptions hpaths]
    rfl

/-- A configuration with a list before the path keys. -/
def plainConfig : String :=
  "\x7b\"files\":[\"a.ts\"],\"compilerOptions\":\x7b\"paths\":\x7b\"~/*\":[]\x7d\x7d\x7d"

/-- The configuration with comments, in which marks and quotes stand, and with a further comma. -/
def decoratedConfig : String :=
  "\x7b // \x7b \"\n\"files\":[\"a.ts\", /* ] */],\"compilerOptions\":\x7b\"paths\":\x7b\"~/*\":[]\x7d\x7d\x7d"

/-- A project with a compiler configuration and nothing else. -/
def configured (s : String) : Tree := { entries := [([aliasFile], .file (.text s))] }

theorem read_configured {s : String} (h : '\r' ∉ s.toList) :
    (configured s).read ([] ++ [aliasFile]) = .ok (some s) := by
  conv_rhs => rw [← withLineFeeds_of_not_mem h]
  rfl

def plainPaths : Entries := [(key "~/*", .list [])]

def plainOptions : Entries := [(key "paths", .record plainPaths)]

/-- What the configuration holds. -/
def plainRecord : Entries :=
  [(key "files", .list [.text (key "a.ts")]), (key "compilerOptions", .record plainOptions)]

theorem parse_plainConfig : parse plainConfig = .ok (.record plainRecord) := by
  have htokens : tokens plainConfig.toList = [.mark '\x7b', textToken "files", .mark ':', .mark '[',
      textToken "a.ts", .mark ']', .mark ',', textToken "compilerOptions", .mark ':', .mark '\x7b',
      textToken "paths", .mark ':', .mark '\x7b', textToken "~/*", .mark ':', .mark '[', .mark ']',
      .mark '\x7d', .mark '\x7d', .mark '\x7d'] := by decide +kernel
  rw [parse, htokens]
  cbv

theorem isDocument_plainConfig : IsDocument plainConfig := .of_parse parse_plainConfig

theorem get?_plainRecord : plainRecord.get? (key "compilerOptions") = some (.record plainOptions) := by
  cbv

theorem get?_plainOptions : plainOptions.get? (key "paths") = some (.record plainPaths) := by
  cbv

/-- The configuration behind the text of its list. -/
def configEnd : String := "],\"compilerOptions\":\x7b\"paths\":\x7b\"~/*\":[]\x7d\x7d\x7d"

theorem decoratedConfig_decorated :
    Decorated (Gap isJsonBlank) (tokens plainConfig.toList) decoratedConfig.toList := by
  have htokens : tokens plainConfig.toList = .mark '\x7b' :: textToken "files" :: .mark ':' ::
      .mark '[' :: textToken "a.ts" :: .mark ']' :: tokens configEnd.toList.tail := by decide +kernel
  have htext : decoratedConfig.toList = [] ++ (['\x7b'] ++
      ((' ' :: '/' :: '/' :: (" \x7b \"".toList ++ '\n' :: [])) ++ ("\"files\"".toList ++
      ([] ++ ([':'] ++ ([] ++ (['['] ++ ([] ++ ("\"a.ts\"".toList ++ ([] ++ ',' ::
      ((' ' :: '/' :: '*' :: (" ] ".toList ++ '*' :: '/' :: [])) ++ ']' :: configEnd.toList.tail)))))))))))
      := by decide +kernel
  have hrest : Decorated (Gap isJsonBlank) (tokens configEnd.toList.tail) configEnd.toList.tail :=
    decorated_end (fun c hc => hc) isDocument_plainConfig [_, _, _, _, _, _] htokens
  rw [htokens, htext]
  refine .lexeme .done ⟨by decide, rfl⟩ (.lexeme (.blank (by decide) (.line (by decide) .done))
    ⟨by decide, rfl⟩ (.lexeme .done ⟨by decide, rfl⟩ (.lexeme .done ⟨by decide, rfl⟩
    (.lexeme .done ⟨by decide, rfl⟩ (.comma .done (.blank (by decide) (.block (by decide) .done))
    (by decide) hrest)))))

theorem importAlias_decoratedConfig :
    IsDocument plainConfig ∧
      Decorated (Gap isJsonBlank) (tokens plainConfig.toList) decoratedConfig.toList ∧
      importAlias (configured decoratedConfig) [] = importAlias (configured plainConfig) [] ∧
      ∃ a, importAlias (configured decoratedConfig) [] = .ok a ∧ FirstAlias [key "~/*"] a := by
  obtain ⟨-, halias⟩ := importAlias_decorated isDocument_plainConfig decoratedConfig_decorated
  obtain ⟨hsame, hfirst⟩ := halias (configured decoratedConfig) (configured plainConfig) [] []
    (read_configured (by decide)) (read_configured (by decide))
  have hnamed := hfirst plainRecord plainOptions plainPaths parse_plainConfig get?_plainRecord get?_plainOptions
  exact ⟨isDocument_plainConfig, decoratedConfig_decorated, hsame, hnamed⟩

/-! ## White space of another kind, and integers that are not read -/

/-- The configuration with a form feed, which is white space, but none of JSON's. -/
def spacedConfig : String :=
  "\x7b\x0c\"files\":[\"a.ts\"],\"compilerOptions\":\x7b\"paths\":\x7b\"~/*\":[]\x7d\x7d\x7d"

theorem spacedConfig_decorated :
    Decorated (Gap isBlank) (tokens plainConfig.toList) spacedConfig.toList := by
  have htokens : tokens plainConfig.toList = .mark '\x7b' :: textToken "files" ::
      tokens (plainConfig.toList.drop 8) := by decide +kernel
  have htext : spacedConfig.toList = [] ++ (['\x7b'] ++ (['\x0c'] ++ ("\"files\"".toList ++
      plainConfig.toList.drop 8))) := by decide +kernel
  have hrest : Decorated (Gap isBlank) (tokens (plainConfig.toList.drop 8)) (plainConfig.toList.drop 8) :=
    decorated_end (fun c => jsonBlank_forall (by decide)) isDocument_plainConfig [_, _] htokens
  rw [htokens, htext]
  exact .lexeme .done ⟨by decide, rfl⟩ (.lexeme (.blank (by decide) .done) ⟨by decide, rfl⟩ hrest)

/-- The form feed is left where it is, and no token starts with it. -/
theorem tokens_spacedConfig : tokens (strict spacedConfig).toList = [.mark '\x7b', .bad] := by
  have htext : spacedConfig.toList = '\x7b' :: '\x0c' :: spacedConfig.toList.drop 2 := by
    decide +kernel
  have hnone (cs : List Char) : token? '\x0c' cs = none := rfl
  rw [strict, String.toList_ofList, htext, dropComments_cons (by decide) (by decide),
    dropComments_cons (by decide) (by decide),
    dropTrailingCommas_cons (by decide) (fun h => absurd h (by decide)),
    dropTrailingCommas_cons (by decide) (fun h => absurd h (by decide)), tokens_mark (by decide),
    tokens_bad (by decide) (hnone _)]

theorem importAlias_plainConfig : importAlias (configured plainConfig) [] = .ok "~" := by
  have hplain := tokens_strict isDocument_plainConfig
    (decorated_document (fun c hc => hc) isDocument_plainConfig)
  have hfirst : firstAlias (plainPaths.map (·.1)) = "~" := by decide +kernel
  rw [importAlias_of_read (read_configured (by decide)), parse_congr hplain, parse_plainConfig]
  dsimp only
  rw [aliasOfConfig_records get?_plainRecord get?_plainOptions, hfirst]
  rfl

theorem importAlias_spacedConfig : importAlias (configured spacedConfig) [] = .ok "@" := by
  have hparse : parse (strict spacedConfig) = .error .malformed := by
    rw [parse, tokens_spacedConfig]
    rfl
  rw [importAlias_of_read (read_configured (by decide)), hparse]
  rfl

/-- The configuration behind its first entry. -/
def sizedConfigEnd : String := ",\"compilerOptions\":\x7b\"paths\":\x7b\"~/*\":[]\x7d\x7d\x7d"

/-- A configuration whose first entry is an integer of so many digits. -/
def sizedConfig (digits : Nat) : String :=
  String.ofList ('\x7b' :: ((jsonLiteral "size").toList ++
    ':' :: (List.replicate digits '1' ++ sizedConfigEnd.toList)))

theorem tokens_sizedConfig (n : Nat) : tokens (sizedConfig (n + 1)).toList =
    .mark '\x7b' :: textToken "size" :: .mark ':' :: .number (ones (n + 1)) :: .mark ',' ::
      textToken "compilerOptions" :: .mark ':' :: .mark '\x7b' :: textToken "paths" :: .mark ':' ::
      .mark '\x7b' :: textToken "~/*" :: .mark ':' :: .mark '[' :: .mark ']' ::
      [.mark '\x7d', .mark '\x7d', .mark '\x7d'] := by
  have hend : tokens sizedConfigEnd.toList = .mark ',' ::
      textToken "compilerOptions" :: .mark ':' :: .mark '\x7b' :: textToken "paths" :: .mark ':' ::
      .mark '\x7b' :: textToken "~/*" :: .mark ':' :: .mark '[' :: .mark ']' ::
      [.mark '\x7d', .mark '\x7d', .mark '\x7d'] := by decide +kernel
  have hstops : Stops sizedConfigEnd.toList := by
    refine stops_of_tokens ?_
    rw [hend]
    rintro t ⟨⟩
    rfl
  rw [sizedConfig, String.toList_ofList, tokens_mark (by decide), tokens_jsonLiteral,
    tokens_mark (by decide), tokens_lexeme (ones_writes n) (.inr hstops), hend]

theorem isDocument_sizedConfig (n : Nat) : IsDocument (sizedConfig (n + 1)) := by
  have hlegible (s : String) : (literalUnits? (s.toList.flatMap jsonChar ++ ['"'])).isSome := by
    rw [literalUnits?_body]
    rfl
  rw [IsDocument, tokens_sizedConfig]
  exact .record (.moreEntries (hlegible _) (.number _) (.entry (hlegible _) (.record (.entry (hlegible _)
    (.record (.entry (hlegible _) .emptyList))))))

theorem parse_sizedConfig {n : Nat} (hlong : 4300 < n + 1) :
    parse (sizedConfig (n + 1)) = .error .integerTooLong := by
  obtain ⟨units, hunits⟩ : ∃ units, literal ("size".toList.flatMap jsonChar ++ ['"']) = .ok units :=
    ⟨_, literal_textToken "size"⟩
  have hread (k levels : Nat) (ts : List Token) : readValue (k + 3) (levels + 1)
      (.mark '\x7b' :: textToken "size" :: .mark ':' :: .number (ones (n + 1)) :: ts) =
      .error .integerTooLong := by
    rw [readValue]
    show (readEntries (k + 2) levels [] _ >>= _) = _
    rw [textToken, readEntries, hunits]
    show ((readValue (k + 1) levels _ >>= _) >>= _) = _
    rw [readValue, ones_value hlong]
    rfl
  rw [parse, tokens_sizedConfig]
  show (readValue _ _ _ >>= _) = _
  rw [show nestingLimit = 969 + 1 from rfl, List.length_cons, List.length_cons, Nat.mul_add, hread]
  rfl

theorem importAlias_sizedConfig {n : Nat} (hlong : 4300 < n + 1) :
    importAlias (configured (sizedConfig (n + 1))) [] = .error .integerTooLong := by
  have hreturn : '\r' ∉ (sizedConfig (n + 1)).toList := by
    have hends : '\r' ∉ (jsonLiteral "size").toList ∧ '\r' ∉ sizedConfigEnd.toList := by decide +kernel
    rw [sizedConfig, String.toList_ofList]
    simp only [List.mem_cons, List.mem_append, hends.1, hends.2, or_false, false_or, not_or]
    exact ⟨by decide, by decide, fun hc => absurd (List.eq_of_mem_replicate hc) (by decide)⟩
  have hplain := tokens_strict (isDocument_sizedConfig n)
    (decorated_document (fun c hc => hc) (isDocument_sizedConfig n))
  rw [importAlias_of_read (read_configured hreturn), parse_congr hplain, parse_sizedConfig hlong]

/-- A form feed is white space, but a configuration with one is not read as the plain one, and names
no alias. A document with an integer of 4301 digits names none either: reading it fails. -/
theorem importAlias_not_decorated :
    (IsDocument plainConfig ∧
      Decorated (Gap isBlank) (tokens plainConfig.toList) spacedConfig.toList ∧
      tokens (strict spacedConfig).toList ≠ tokens plainConfig.toList ∧
      importAlias (configured plainConfig) [] = .ok "~" ∧
      importAlias (configured spacedConfig) [] = .ok "@") ∧
    IsDocument (sizedConfig 4301) ∧
      importAlias (configured (sizedConfig 4301)) [] = .error .integerTooLong := by
  refine ⟨⟨isDocument_plainConfig, spacedConfig_decorated, fun h => ?_, importAlias_plainConfig,
    importAlias_spacedConfig⟩, isDocument_sizedConfig 4300, importAlias_sizedConfig (by decide)⟩
  have hbad := isDocument_plainConfig.wellSpaced.legible
  rw [← h, tokens_spacedConfig] at hbad
  simp at hbad

end SchemaScaffold.Detection
