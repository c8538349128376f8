import Mathlib
import SchemaScaffold.Proofs.Command.Overwriting
import SchemaScaffold.Proofs.Json.LongIntegers
import SchemaScaffold.Proofs.Json.Printed
import SchemaScaffold.Proofs.Setup.Scripts

/-!
Adding the scripts of the migration tool to the package file. A package that is read is extended and
written back, only if something was missing, and then lacks nothing any more. A file that is missing
or is no JSON is left alone, and so is one that meets a limit of the reader, which makes the command
fail.
-/

namespace SchemaScaffold.Command

open SchemaScaffold.Tree Json Setup

variable {s : Session} {root : Path} {text : String}

/-! ## Reading the package file -/

theorem run_readPackage (h : s.tree.read (root ++ [packageFile]) = .ok (some text)) :
    readPackage? root s =
      match parse text with
      | .ok v => .ok (some v) s
      | .error .malformed => .ok none s
      | .error .integerTooLong => .error (.detection .integerTooLong) s
      | .error .nestedTooDeeply => .error (.detection .nestedTooDeeply) s := by
  rw [readPackage?, bind_run ((run_readText _ s).trans (by rw [h]))]
  cases parse text with
  | ok v => rfl
  | error e => cases e <;> rfl

/-! ## Adding the scripts -/

/-- What is done with the package file, once it was read. -/
def extendPackage (root : Path) : Option Value → Command Nat
  | none => do
    say ("Warning: Failed to add scripts to " ++ packageFile)
    return 0
  | some v => do
    let (package, added) ←
      lift (fun e => .detection (.shape e)) (do Setup.addScripts (← v.entries))
    if added != 0 then
      store (root ++ [packageFile]) (render (.record package) ++ "\n")
      say s!"Added {added} script(s) to package.json"
    return added

theorem run_addScripts (h : s.tree.read (root ++ [packageFile]) = .ok (some text)) :
    ∃ r, s.SameFiles r ∧ addScripts root s = (readPackage? root >>= extendPackage root) r := by
  obtain ⟨r, hask, hsame⟩ : Idle (exists? (root ++ [packageFile])) s true := .exists? (probe_of_read h)
  refine ⟨r, hsame, ?_⟩
  rw [addScripts, bind_run hask]
  rfl

/-- A package is written back only if something was added. -/
theorem run_extendPackage {package new : Entries} {added : Nat} {place : Path} {old : Content}
    (hlocate : s.tree.locate (root ++ [packageFile]) = .found place (.file old))
    (hadd : Setup.addScripts package = .ok (new, added)) :
    ∃ t, extendPackage root (some (.record package)) s = .ok added t ∧ t.tree =
      if added = 0 then s.tree
      else s.tree.insert place (.file (.text (render (.record new) ++ "\n"))) := by
  have hlift : lift (fun e => Failure.detection (.shape e))
      (do Setup.addScripts (← (Value.record package).entries)) s = .ok (new, added) s := by
    show lift _ (Setup.addScripts package) s = _
    rw [hadd]
    rfl
  rw [extendPackage, bind_run hlift]
  by_cases hnone : added = 0
  · subst hnone
    exact ⟨s, rfl, by simp⟩
  · have hsome : (added != 0) = true := by simpa using hnone
    dsimp only
    rw [if_pos hsome, if_neg hnone, bind_run (run_store hlocate _)]
    obtain ⟨t, hsay, hsame⟩ := Idle.say s!"Added {added} script(s) to package.json"
      { s with tree := s.tree.insert place (.file (.text (render (.record new) ++ "\n"))) }
    rw [bind_run hsay]
    exact ⟨t, rfl, hsame.tree⟩

/-- A package file that is a record with a record of scripts, or with none, is extended. -/
theorem addScripts_record {package : Entries}
    (hread : s.tree.read (root ++ [packageFile]) = .ok (some text))
    (hparse : parse text = .ok (.record package)) (hscripts : HasScripts package)
    (hprinted : ∀ new added, Setup.addScripts package = .ok (new, added) →
      parse (render (.record new)) = .ok (.record new)) :
    ∃ new added t, addScripts root s = .ok added t ∧ Equipped package new added ∧
      (∃ stored, t.tree.read (root ++ [packageFile]) = .ok (some stored) ∧
        parse stored = .ok (.record new)) ∧
      (∀ q, q ≠ packagePlace root → t.tree.get? q = s.tree.get? q) ∧ (added = 0 → t.tree = s.tree) := by
  have hadd := addScripts_eq hscripts
  generalize hnew : package.set scriptsKey (.record (completed (scriptsOf package))) = new at hadd
  generalize hadded : (missingScripts (scriptsOf package)).length = added at hadd
  obtain ⟨r, hsame, hrun⟩ := run_addScripts hread
  rw [← hsame.tree] at hread ⊢
  obtain ⟨place, raw, hlocate, -⟩ := read_some_iff.mp hread
  have hplace : place = packagePlace root := locate_place (some (.text raw)) hlocate
  obtain ⟨t, hwrite, htree⟩ := run_extendPackage hlocate hadd
  have hreturn : addScripts root s = .ok added t := by
    rw [hrun, bind_run (run_readPackage hread |>.trans (by rw [hparse])), hwrite]
  refine ⟨new, added, t, hreturn, addScripts_equipped hscripts hadd, ?_, fun q hq => ?_, fun hnone => ?_⟩
  · by_cases hnone : added = 0
    · rw [htree, if_pos hnone]
      subst hnone
      exact ⟨text, hread, by rw [addScripts_none hscripts hadd, hparse]⟩
    · rw [htree, if_neg hnone]
      have hwrote : r.tree.write (root ++ [packageFile]) (render (.record new) ++ "\n") =
          .ok (r.tree.insert place (.file (.text (render (.record new) ++ "\n")))) := by
        rw [Tree.write, hlocate]
      refine ⟨_, (grew_write hwrote).2, ?_⟩
      rw [withLineFeeds_render]
      exact parse_append_lineBreak (hprinted new added hadd)
  · rw [htree]
    split
    · rfl
    · have hfile : r.tree.get? place ≠ some .directory := by
        rw [(locate_ending (some (.text raw)) hlocate).1]
        simp
      rw [get?_insert (isAbove_eq_false hfile), if_neg (hplace ▸ hq)]
  · rw [htree, if_pos hnone]

/-! ## When nothing is added -/

/-- A package that lacks nothing is left alone. -/
theorem addScripts_complete {package new : Entries}
    (hread : s.tree.read (root ++ [packageFile]) = .ok (some text))
    (hparse : parse text = .ok (.record package)) (hadd : Setup.addScripts package = .ok (new, 0)) :
    Idle (addScripts root) s 0 := by
  obtain ⟨r, hsame, hrun⟩ := run_addScripts hread
  rw [← hsame.tree] at hread
  have hlift : lift (fun e => Failure.detection (.shape e))
      (do Setup.addScripts (← (Value.record package).entries)) r = .ok (new, 0) r := by
    show lift _ (Setup.addScripts package) r = _
    rw [hadd]
    rfl
  refine ⟨r, ?_, hsame⟩
  rw [hrun, bind_run ((run_readPackage hread).trans (by rw [hparse])), extendPackage, bind_run hlift]
  rfl

theorem addScripts_missing (h : s.tree.probe (root ++ [packageFile]) = .ok false) :
    Idle (addScripts root) s 0 := by
  refine .bind (.exists? h) fun t _ => ?_
  exact .bind (.say _ t) fun u _ => .pure 0 u

theorem addScripts_malformed (hread : s.tree.read (root ++ [packageFile]) = .ok (some text))
    (hparse : parse text = .error .malformed) : Idle (addScripts root) s 0 := by
  obtain ⟨r, hsame, hrun⟩ := run_addScripts hread
  rw [← hsame.tree] at hread
  obtain ⟨t, hrest, hsame'⟩ : Idle (extendPackage root none) r 0 := .bind (.say _ r) fun u _ => .pure 0 u
  refine ⟨t, ?_, hsame.trans hsame'⟩
  rw [hrun, bind_run ((run_readPackage hread).trans (by rw [hparse])), hrest]

/-- A package file that is not read makes the command fail. -/
theorem addScripts_fails {failure : Failure} (hread : s.tree.read (root ++ [packageFile]) = .ok (some text))
    (hfail : ∀ r : Session, r.tree = s.tree → readPackage? root r = .error failure r) :
    ∃ t, addScripts root s = .error failure t ∧ s.SameFiles t := by
  obtain ⟨r, hsame, hrun⟩ := run_addScripts hread
  exact ⟨r, by rw [hrun, run_bind, hfail r hsame.tree], hsame⟩

/-! ## Whatever the package file holds -/

/-- A package file that is a record, whose scripts are a record if there are any, is extended by the
scripts that it lacks, and a second time there is nothing to add. A file that is missing is not made.
A file that is no JSON is left alone, with no failure unless it meets a limit of the reader. -/
theorem addScripts_extends (root : Path) (s : Session) :
    (∀ {text : String} {package : Entries}, s.tree.read (root ++ [packageFile]) = .ok (some text) →
      parse text = .ok (.record package) → HasScripts package →
      (∀ new added, Setup.addScripts package = .ok (new, added) →
        parse (render (.record new)) = .ok (.record new)) →
      ∃ new added t, addScripts root s = .ok added t ∧ Equipped package new added ∧
        (∃ stored, t.tree.read (root ++ [packageFile]) = .ok (some stored) ∧
          parse stored = .ok (.record new)) ∧
        (∀ q, q ≠ packagePlace root → t.tree.get? q = s.tree.get? q) ∧
        (added = 0 → t.tree = s.tree) ∧ Idle (addScripts root) t 0) ∧
    (s.tree.probe (root ++ [packageFile]) = .ok false → Idle (addScripts root) s 0) ∧
    ∀ {text : String}, s.tree.read (root ++ [packageFile]) = .ok (some text) → ¬ IsDocument text →
      Idle (addScripts root) s 0 ∨
        ∃ failure ∈ [DetectionError.integerTooLong, .nestedTooDeeply], ∃ t,
          addScripts root s = .error (.detection failure) t ∧ s.SameFiles t := by
  refine ⟨?_, addScripts_missing, ?_⟩
  · intro text package hread hparse hscripts hprinted
    obtain ⟨new, added, t, hreturn, hequipped, ⟨stored, hstored, hparsed⟩, hothers, hnone⟩ :=
      addScripts_record hread hparse hscripts hprinted
    exact ⟨new, added, t, hreturn, hequipped, ⟨stored, hstored, hparsed⟩, hothers, hnone,
      addScripts_complete hstored hparsed (addScripts_again hequipped)⟩
  · intro text hread hdoc
    cases hparse : parse text with
    | ok v => exact absurd (.of_parse hparse) hdoc
    | error e =>
      cases e with
      | malformed => exact .inl (addScripts_malformed hread hparse)
      | integerTooLong =>
        refine .inr ⟨.integerTooLong, by simp, addScripts_fails hread fun r htree => ?_⟩
        rw [run_readPackage (htree ▸ hread), hparse]
      | nestedTooDeeply =>
        refine .inr ⟨.nestedTooDeeply, by simp, addScripts_fails hread fun r htree => ?_⟩
        rw [run_readPackage (htree ▸ hread), hparse]

/-- A project with a package file and nothing else. -/
def packaged (s : String) : Session :=
  { base := "/project", tree := { entries := [([packageFile], .file (.text s))] } }

theorem read_packaged {s : String} (h : '\r' ∉ s.toList) :
    (packaged s).tree.read ([] ++ [packageFile]) = .ok (some s) := by
  conv_rhs => rw [← Text.withLineFeeds_of_not_mem h]
  rfl

/-- A package with one script of the tool that is not given, and one script of its own. -/
def partialPackage : Entries := [(key "name", .text (key "app")),
  (key "scripts", .record [(key "db:push", .null), (key "test", .text (key "vitest"))])]

def partialText : String :=
  "\x7b\"name\":\"app\",\"scripts\":\x7b\"db:push\":null,\"test\":\"vitest\"\x7d\x7d"

/-- The package with the scripts that it lacks. -/
def completePackage : Entries := [(key "name", .text (key "app")), (key "scripts", .record [
  (key "db:push", .text (key "drizzle-kit push")), (key "test", .text (key "vitest")),
  (key "db:generate", .text (key "drizzle-kit generate")),
  (key "db:migrate", .text (key "drizzle-kit migrate")),
  (key "db:studio", .text (key "drizzle-kit studio"))])]

theorem addScripts_partialPackage : Setup.addScripts partialPackage = .ok (completePackage, 4) := by cbv

theorem parse_partialText : parse partialText = .ok (.record partialPackage) := by
  have htokens : tokens partialText.toList = [.mark '\x7b', textToken "name", .mark ':',
      textToken "app", .mark ',', textToken "scripts", .mark ':', .mark '\x7b', textToken "db:push",
      .mark ':', .name "null", .mark ',', textToken "test", .mark ':', textToken "vitest",
      .mark '\x7d', .mark '\x7d'] := by decide +kernel
  rw [parse, htokens]
  cbv

theorem parse_completePackage :
    parse (render (.record completePackage)) = .ok (.record completePackage) := by
  have htokens : tokens (render (.record completePackage)).toList = [.mark '\x7b', textToken "name",
      .mark ':', textToken "app", .mark ',', textToken "scripts", .mark ':', .mark '\x7b',
      textToken "db:push", .mark ':', textToken "drizzle-kit push", .mark ',',
      textToken "test", .mark ':', textToken "vitest", .mark ',',
      textToken "db:generate", .mark ':', textToken "drizzle-kit generate", .mark ',',
      textToken "db:migrate", .mark ':', textToken "drizzle-kit migrate", .mark ',',
      textToken "db:studio", .mark ':', textToken "drizzle-kit studio",
      .mark '\x7d', .mark '\x7d'] := by
    rw [render, String.toList_ofList]
    decide +kernel
  rw [parse, htokens]
  cbv

theorem hasScripts_partialPackage : HasScripts partialPackage := by
  intro v hv
  have hget : partialPackage.get? scriptsKey = some (.record
      [(key "db:push", .null), (key "test", .text (key "vitest"))]) := by cbv
  exact ⟨_, Option.some.inj (hv.symm.trans hget)⟩

theorem addScripts_partialText : ∃ new added t,
    addScripts [] (packaged partialText) = .ok added t ∧ Equipped partialPackage new added ∧
      Idle (addScripts []) t 0 := by
  obtain ⟨new, added, t, hreturn, hequipped, -, -, -, hidle⟩ :=
    (addScripts_extends [] (packaged partialText)).1 (read_packaged (by decide)) parse_partialText
      hasScripts_partialPackage fun new added hadd => by
        obtain ⟨hnew, -⟩ := Prod.mk.inj (Except.ok.inj (addScripts_partialPackage.symm.trans hadd))
        rw [← hnew, parse_completePackage]
  exact ⟨new, added, t, hreturn, hequipped, hidle⟩

/-! ## Texts that are no JSON -/

/-- An integer of so many digits, and something behind it. -/
def strayText (digits : Nat) : String := String.ofList (List.replicate digits '1' ++ [' ', 'x'])

theorem tokens_strayText (n : Nat) : tokens (strayText (n + 1)).toList = [.number (ones (n + 1)), .bad] := by
  have hstops : Stops [' ', 'x'] := stops_cons (by decide) _
  rw [strayText, String.toList_ofList, tokens_lexeme (ones_writes n) (.inr hstops)]
  rfl

theorem not_isDocument_strayText (n : Nat) : ¬ IsDocument (strayText (n + 1)) := by
  intro h
  have hlegible := h.wellSpaced.legible
  rw [tokens_strayText] at hlegible
  simp at hlegible

theorem parse_strayText {n : Nat} (hlong : 4300 < n + 1) :
    parse (strayText (n + 1)) = .error .integerTooLong := by
  rw [parse, tokens_strayText]
  show (readValue 5 nestingLimit _ >>= _) = _
  rw [readValue, ones_value hlong]
  rfl

theorem read_strayText (digits : Nat) :
    (packaged (strayText digits)).tree.read ([] ++ [packageFile]) = .ok (some (strayText digits)) := by
  refine read_packaged ?_
  rw [strayText, String.toList_ofList, List.mem_append, not_or]
  exact ⟨fun hmem => absurd (List.eq_of_mem_replicate hmem) (by decide), by decide⟩

theorem addScripts_strayText {n : Nat} (hlong : 4300 < n + 1) :
    value (addScripts []) (packaged (strayText (n + 1))) = .error (.detection .integerTooLong) := by
  have hread := read_strayText (n + 1)
  have hfail : ∀ r : Session, r.tree = (packaged (strayText (n + 1))).tree →
      readPackage? [] r = .error (.detection .integerTooLong) r := fun r htree => by
    rw [run_readPackage (htree ▸ hread), parse_strayText hlong]
  obtain ⟨t, hrun, -⟩ := addScripts_fails hread hfail
  rw [value, hrun]

/-- A package file that is no JSON, but starts with an integer of 4301 digits, is not passed over: the
command fails. -/
theorem addScripts_not_json : ¬ IsDocument (strayText 4301) ∧
    (packaged (strayText 4301)).tree.read ([] ++ [packageFile]) = .ok (some (strayText 4301)) ∧
    value (addScripts []) (packaged (strayText 4301)) = .error (.detection .integerTooLong) :=
  ⟨not_isDocument_strayText 4300, read_strayText 4301, addScripts_strayText (n := 4300) (by decide)⟩

end SchemaScaffold.Command
