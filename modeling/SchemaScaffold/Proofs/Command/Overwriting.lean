import SchemaScaffold.Proofs.Command.Turns

/-!
Setups ask before they overwrite. A file that was there is changed only with leave, and that leave
was given at the turn of the file; a dry run changes nothing, and lists what a run with every leave
writes. The one way around the question is a path that enters a directory which is missing and leaves
it again: looked at before, it leads nowhere, and once the directory is made, it leads to the file.
-/

namespace SchemaScaffold

open Setup SchemaScaffold.Tree SchemaScaffold.Path

namespace Command

variable {root : Path} {options : Setup.Options} {e : Item} {s t u v : Session}

/-! ## Dry runs -/

theorem Law.writeItem {move : Session → Session → Prop} {may : Failure → Prop}
    (law : Law move may) (hmay : Lenient may) (hedits : options.dryRun = true ∨ Edits move)
    (root : Path) (e : Item) : Obeys move may (writeItem root options e) :=
  .ite (law.writeEnvFile hmay hedits _) (law.writeSetupFile hmay hedits _ _ _)

/-- The environment file may be written: it is missing, or the setup is forced, or it can be read and
does not mention the variable. -/
def EnvOpen (root : Path) (options : Setup.Options) (t : Tree) : Prop :=
  t.probe (root ++ [envExampleFile]) = .ok false ∨ options.force = true ∨
    ∃ old, t.read (root ++ [envExampleFile]) = .ok (some old) ∧
      Text.occursIn options.driver.envVar old = false

theorem envOpen_iff_leave :
    EnvOpen root options u.tree ↔ ∃ text, Leave root options (envItem options) u text := by
  have hpath := envItem_path root options
  constructor
  · rintro (hfree | hforce | ⟨old, hread, hlacks⟩)
    · exact ⟨_, .free (hpath.symm ▸ hfree)⟩
    · exact ⟨_, .forced hforce⟩
    · cases hforce : options.force with
      | true => exact ⟨_, .forced hforce⟩
      | false =>
        exact ⟨_, (added_iff (probe_of_read hread) hforce hread).mpr ⟨hlacks, rfl⟩⟩
  · rintro ⟨text, hleave⟩
    cases hleave with
    | free hfree => exact .inl (hpath ▸ hfree)
    | forced hforce => exact .inr (.inl hforce)
    | agreed hplain => cases hplain
    | added _ _ hold hlacks => exact .inr (.inr ⟨_, hpath ▸ hold, hlacks⟩)

def packagePlace (root : Path) : Path := normalize (root ++ [packageFile])

theorem trimEnd_mergeEnv (old content : String) :
    Text.trimEnd old.toList <+: (mergeEnv old content).toList := by
  refine ⟨"\n\n".toList ++ content.toList, ?_⟩
  simp [mergeEnv, String.toList_append]

end Command
end SchemaScaffold
