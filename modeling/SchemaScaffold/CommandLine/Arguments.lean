/-!
Splitting a command's arguments into operands and options. Options may stand anywhere; `--` makes
operands of all that follows it; switches of one letter may be written together. An option that the
command does not have, a switch with a value and an option without its value are refused.
-/

namespace SchemaScaffold.CommandLine

/-- The options of a command, by their long names. -/
structure OptionNames where
  /-- The options without a value, with their letter where they have one. -/
  switches : List (String × Option Char) := []
  /-- The options with a value. -/
  valued : List String := []
  deriving Repr, DecidableEq

/-- Arguments taken apart: the operands, and the options with their values, in order. -/
structure Arguments where
  operands : List String := []
  options : List (String × String) := []
  deriving Repr, DecidableEq

namespace OptionNames

def isSwitch (names : OptionNames) (name : String) : Bool :=
  (names.switches.map (·.1)).contains name

/-- The switch of a letter. -/
def ofLetter? (names : OptionNames) (letter : Char) : Option String :=
  (names.switches.find? (·.2 == some letter)).map (·.1)

end OptionNames

/-- An argument as it is written. -/
inductive Argument
  /-- Two dashes alone. -/
  | divider
  /-- A name after two dashes, with the value after `=` if there is one. -/
  | long (name : String) (value : Option String)
  /-- Letters after a single dash. -/
  | letters (letters : List Char)
  | operand (text : String)
  deriving Repr, DecidableEq

/-- A single dash alone is an operand. -/
def Argument.of (text : String) : Argument :=
  match text.toList with
  | ['-', '-'] => .divider
  | '-' :: '-' :: cs =>
    let name := String.ofList (cs.takeWhile (· != '='))
    match cs.dropWhile (· != '=') with
    | [] => .long name none
    | _ :: value => .long name (some (String.ofList value))
  | '-' :: c :: cs => .letters (c :: cs)
  | _ => .operand text

namespace Arguments

def withOption (name value : String) (a : Arguments) : Arguments :=
  { a with options := (name, value) :: a.options }

def withOperand (text : String) (a : Arguments) : Arguments :=
  { a with operands := text :: a.operands }

/-- Takes the arguments of a command apart. -/
def parse? (names : OptionNames) : List String → Option Arguments
  | [] => some {}
  | text :: rest =>
    match Argument.of text with
    | .divider => some { operands := rest }
    | .operand text => (parse? names rest).map (withOperand text)
    | .letters letters => do
      let switches ← letters.mapM names.ofLetter?
      let a ← parse? names rest
      return switches.foldr (fun name a => withOption name "" a) a
    | .long name none =>
      if names.isSwitch name then (parse? names rest).map (withOption name "")
      else if names.valued.contains name then
        match rest with
        | [] => none
        | value :: rest => (parse? names rest).map (withOption name value)
      else none
    | .long name (some value) =>
      if names.valued.contains name then (parse? names rest).map (withOption name value) else none

/-- The value of an option: the last one counts. -/
def value? (a : Arguments) (name : String) : Option String := a.options.reverse.lookup name

def has (a : Arguments) (name : String) : Bool := (a.value? name).isSome

/-- A switch that can be turned on and off: what was said last counts. -/
def isOn (a : Arguments) (on off : String) (standard : Bool) : Bool :=
  match a.options.reverse.find? fun option => option.1 == on || option.1 == off with
  | some option => option.1 == on
  | none => standard

end Arguments
end SchemaScaffold.CommandLine
