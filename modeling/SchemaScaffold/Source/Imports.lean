/-!
Named imports as a table from modules to symbols. Modules and symbols keep the order in which they
were first seen, and adding what is already there changes nothing.
-/

namespace SchemaScaffold

/-- Modules in order, each with its symbols in order. -/
abbrev Imports := List (String × List String)

/-- The symbols of `old`, then those of `new` that are not yet there. -/
def addSymbols (old new : List String) : List String :=
  new.foldl (fun symbols symbol =>
    if symbols.contains symbol then symbols else symbols ++ [symbol]) old

namespace Imports

/-- Adds symbols to a module, which goes to the end if it is new. -/
def add (module : String) (symbols : List String) : Imports → Imports
  | [] => [(module, addSymbols [] symbols)]
  | (name, old) :: imports =>
    if name == module then (name, addSymbols old symbols) :: imports
    else (name, old) :: add module symbols imports

/-- Everything of `old`, then what `new` adds, in the order of `new`. -/
def merge (old new : Imports) : Imports :=
  new.foldl (fun imports (module, symbols) => add module symbols imports) old

/-- Gathers entries of which several may name one module: the module keeps its first place and
takes the symbols of its last entry. -/
def ofEntries (entries : List (String × List String)) : Imports :=
  entries.foldl (fun imports (module, symbols) =>
    if imports.any (·.1 == module) then
      imports.map fun entry => if entry.1 == module then (module, symbols) else entry
    else imports ++ [(module, symbols)]) []

/-- One import statement. -/
def renderStatement (module : String) (symbols : List String) : String :=
  "import \x7b " ++ ", ".intercalate symbols ++ " \x7d from \"" ++ module ++ "\";"

/-- One statement a line; a module without symbols needs none. -/
def render (imports : Imports) : String :=
  "\n".intercalate
    ((imports.filter fun entry => !entry.2.isEmpty).map fun entry =>
      renderStatement entry.1 entry.2)

end Imports
end SchemaScaffold
