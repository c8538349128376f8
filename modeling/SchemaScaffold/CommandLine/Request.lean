import SchemaScaffold.Command.Destroy
import SchemaScaffold.Command.Wizard
import SchemaScaffold.CommandLine.Arguments

/-! What a command line asks for. -/

namespace SchemaScaffold.CommandLine

/-- The commands that generate code from field definitions. -/
inductive Generator
  | model | resource | scaffold | api
  deriving Repr, DecidableEq

inductive Request
  | generate (generator : Generator) (options : Generate.Options) (name : String)
    (definitions : List String)
  | actions (options : Generate.Options) (name : String)
  | destroy (options : WriteOptions) (kind name : String)
  | config
  | init (request : SetupRequest)
  | version
  deriving Repr, DecidableEq

def writeSwitches : List (String × Option Char) := [("force", some 'f'), ("dry-run", some 'n')]

def tableSwitches : List (String × Option Char) :=
  [("uuid", some 'u'), ("timestamps", none), ("no-timestamps", none)]

def writeOptions (a : Arguments) : WriteOptions :=
  { force := a.has "force", dryRun := a.has "dry-run" }

def generateOptions (a : Arguments) : Generate.Options :=
  { writeOptions a with
    uuid := a.has "uuid", timestamps := a.isOn "timestamps" "no-timestamps" true }

namespace Request

def ofGenerator? (generator : Generator) (arguments : List String) : Option Request := do
  let a ← Arguments.parse? { switches := writeSwitches ++ tableSwitches } arguments
  match a.operands with
  | name :: definitions => return .generate generator (generateOptions a) name definitions
  | [] => none

def ofActions? (arguments : List String) : Option Request := do
  let a ← Arguments.parse? { switches := writeSwitches } arguments
  match a.operands with
  | [name] => return .actions (generateOptions a) name
  | _ => none

def ofDestroy? (arguments : List String) : Option Request := do
  let a ← Arguments.parse? { switches := writeSwitches } arguments
  match a.operands with
  | [kind, name] => return .destroy (writeOptions a) kind name
  | _ => none

def ofInit? (arguments : List String) : Option Request := do
  let a ← Arguments.parse?
    { switches := ("install", none) :: ("no-install", none) :: writeSwitches
      valued := ["dialect", "driver"] } arguments
  if a.operands.isEmpty then
    return .init {
      dialect := (a.value? "dialect").getD "", driver := (a.value? "driver").getD ""
      install := a.isOn "install" "no-install" true
      force := a.has "force", dryRun := a.has "dry-run" }
  else none

/-- A request that takes neither operands nor options. -/
def bare? (request : Request) (arguments : List String) : Option Request := do
  let a ← Arguments.parse? {} arguments
  if a.operands.isEmpty then return request else none

/-- The request of a command of this name with these arguments. -/
def ofCommand? (command : String) (arguments : List String) : Option Request :=
  match command with
  | "model" => ofGenerator? .model arguments
  | "actions" => ofActions? arguments
  | "resource" => ofGenerator? .resource arguments
  | "scaffold" => ofGenerator? .scaffold arguments
  | "api" => ofGenerator? .api arguments
  | "destroy" | "d" => ofDestroy? arguments
  | "config" => bare? .config arguments
  | "init" => ofInit? arguments
  | "version" => bare? .version arguments
  | _ => none

/-- The request of a command line, which a divider may precede. -/
def ofArguments? : List String → Option Request
  | "--" :: command :: arguments => ofCommand? command arguments
  | command :: arguments => ofCommand? command arguments
  | [] => none

end Request
end SchemaScaffold.CommandLine
