import SchemaScaffold.Main
import SchemaScaffold.Proofs.Schema.EnumDeclarations
import SchemaScaffold.Proofs.Schema.Replacement
import SchemaScaffold.Proofs.Schema.Runs
import SchemaScaffold.Proofs.Project.Paths
import SchemaScaffold.Proofs.Project.Trees
import SchemaScaffold.Proofs.Project.Changes
import SchemaScaffold.Proofs.Session.Runs
import SchemaScaffold.Proofs.Session.Writes
import SchemaScaffold.Proofs.Command.Generations
import SchemaScaffold.Proofs.Command.Refusals
import SchemaScaffold.Proofs.Naming.Routes
import SchemaScaffold.Proofs.Command.Places
import SchemaScaffold.Proofs.Command.DryRuns
import SchemaScaffold.Proofs.Command.Effects
import SchemaScaffold.Proofs.Command.Removals
import SchemaScaffold.Proofs.Field.Grammar
import SchemaScaffold.Proofs.Project.Growth
import SchemaScaffold.Proofs.Session.Growth
import SchemaScaffold.Proofs.Schema.Rereading
import SchemaScaffold.Proofs.Command.Reruns
import SchemaScaffold.Proofs.Command.Parallel
import SchemaScaffold.Proofs.Command.Undoing
import SchemaScaffold.Proofs.Table.Marks
import SchemaScaffold.Proofs.Command.Following
import SchemaScaffold.Proofs.Naming.Numbers
import SchemaScaffold.Proofs.Generated.Declarations
import SchemaScaffold.Proofs.Generated.Plain
import SchemaScaffold.Proofs.Naming.Plurals
import SchemaScaffold.Proofs.Generated.Hygiene
import SchemaScaffold.Proofs.Table.FreeNames
import SchemaScaffold.Proofs.Command.Overwriting
import SchemaScaffold.Proofs.Source.Blocks
import SchemaScaffold.Proofs.Table.Totality
import SchemaScaffold.Proofs.Command.Agreement
import SchemaScaffold.Proofs.Source.Comments
import SchemaScaffold.Proofs.Source.CommentedImports
import SchemaScaffold.Proofs.Source.Removal
import SchemaScaffold.Proofs.Schema.Appending
import SchemaScaffold.Proofs.Field.NullMarks
import SchemaScaffold.Proofs.Field.CanonicalSpellings
import SchemaScaffold.Proofs.Table.ImportUnions
import SchemaScaffold.Proofs.Table.RenderedImports
import SchemaScaffold.Proofs.Table.EnumValues
import SchemaScaffold.Proofs.Table.ColumnNames
import SchemaScaffold.Proofs.Table.SelfReferences
import SchemaScaffold.Proofs.Naming.CompoundNames
import SchemaScaffold.Proofs.Project.Aliases
import SchemaScaffold.Proofs.Command.Scripts
import SchemaScaffold.Proofs.Command.Environments
import SchemaScaffold.Proofs.Generated.Forms
import SchemaScaffold.Proofs.Naming.Respelling
import SchemaScaffold.Proofs.Source.Escapes
import SchemaScaffold.Proofs.Source.Offsets
import SchemaScaffold.Proofs.Generated.Options
