import SchemaScaffold.Project.Detection
import SchemaScaffold.Proofs.Outcome
import SchemaScaffold.Proofs.Project.Reach
import SchemaScaffold.Proofs.Source.Lines
import SchemaScaffold.Proofs.Text.Occurrences

/-!
Detecting a project again, once files were added to it. The layout is told by a few places below the
root, so it stays the same as long as they do; the dialect is told by the first entry that names one,
and a text in which no entry starts is passed over.
-/

namespace SchemaScaffold

open SchemaScaffold.Tree SchemaScaffold.Path Text Source

namespace Detection

/-! ## The layout -/

variable {t u : Tree} {names : List String} {root : Path}

end Detection
end SchemaScaffold
