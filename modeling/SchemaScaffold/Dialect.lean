/-! The database dialects that columns can be written for. -/

namespace SchemaScaffold

inductive Dialect
  | sqlite | postgresql | mysql
  deriving Repr, DecidableEq

namespace Dialect

def all : List Dialect := [.sqlite, .postgresql, .mysql]

def name : Dialect → String
  | .sqlite => "sqlite"
  | .postgresql => "postgresql"
  | .mysql => "mysql"

def ofName? (s : String) : Option Dialect := all.find? (·.name == s)

theorem mem_all (d : Dialect) : d ∈ all := by cases d <;> decide

/-- The type that annotates a foreign key callback into its own table. -/
def anyColumnType : Dialect → String
  | .sqlite => "AnySQLiteColumn"
  | .postgresql => "AnyPgColumn"
  | .mysql => "AnyMySqlColumn"

end Dialect
end SchemaScaffold
