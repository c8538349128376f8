import SchemaScaffold.Console.Sequence
import SchemaScaffold.Session.Basic
import SchemaScaffold.Text.Blank
import SchemaScaffold.Text.LetterCase
import SchemaScaffold.Text.Search

/-!
Questions on the console. A question is asked until an answer is accepted or the input ends; every
asking takes one line, so the lines that are left bound the askings.
-/

namespace SchemaScaffold

/-- A question, with what becomes of an answer. -/
structure Question (α : Type) where
  text : String
  /-- The value of an answer, or what to tell before asking again. -/
  accept : String → Except String α
  /-- What the end of the input means. -/
  ended : Failure
  /-- Whether the line read is shown where the session shows such lines. -/
  shown : Bool := false

namespace Command

/-- The next line of input. -/
def nextLine? : Command (Option String) := do
  match (← get).input with
  | [] => return none
  | line :: input =>
    modify fun session => { session with input }
    return some line

/-- Asks until an answer is accepted; the number bounds the answers. -/
def askUpTo {α : Type} (question : Question α) : Nat → Command α
  | 0 => do
    print question.text
    throw question.ended
  | count + 1 => do
    print question.text
    match ← nextLine? with
    | none => throw question.ended
    | some line =>
      if question.shown && (← get).echoes then print (line ++ "\n")
      match question.accept line with
      | .ok value => return value
      | .error complaint =>
        print complaint
        askUpTo question count

def ask {α : Type} (question : Question α) : Command α := do
  askUpTo question (← get).input.length

/-- Asks a question of the wizard, laid out as everything else that it shows. -/
def askLaidOut {α : Type} (question : Question α) : Command α := do
  ask { question with text := Console.shownText (← get).width question.text }

/-- Asks for consent; no answer is none. -/
def confirm (text : String) : Command Bool :=
  ask {
    text := Console.withoutSequences text ++ " [y/N]: "
    accept := fun line =>
      match String.ofList (Text.trim (Text.lower line.toList)) with
      | "y" | "yes" => .ok true
      | "n" | "no" | "" => .ok false
      | _ => .error "Error: invalid input\n"
    ended := .unconfirmed
    shown := true }

/-- Asks for one of several values by name. -/
def choose {α : Type} (text : String) (name : α → String) (choices : List α) (standard : α) :
    Command α :=
  askLaidOut {
    text := text ++ " [" ++ "/".intercalate (choices.map name) ++ "] (" ++ name standard ++ "): "
    accept := fun line =>
      let answer := String.ofList (Text.trim line.toList)
      if line.isEmpty then .ok standard
      else
        match choices.find? fun choice => name choice == answer with
        | some choice => .ok choice
        | none => .error "Please select one of the available options\n"
    ended := .unanswered }

/-- Asks for yes or no. -/
def agree (text : String) (standard : Bool) : Command Bool :=
  askLaidOut {
    text := text ++ " [y/n] (" ++ (if standard then "y" else "n") ++ "): "
    accept := fun line =>
      if line.isEmpty then .ok standard
      else
        match String.ofList (Text.lower (Text.trim line.toList)) with
        | "y" => .ok true
        | "n" => .ok false
        | _ => .error "Please enter Y or N\n"
    ended := .unanswered }

/-- Asks for the directory of the database files, which must not lead upwards. -/
def askDirectory (text : String) (standard : String) : Command String :=
  askLaidOut {
    text := text ++ " (" ++ standard ++ "): "
    accept := fun line =>
      let answer := String.ofList (Text.trim line.toList)
      if line.isEmpty then .ok standard
      else if Text.occursIn ".." answer then .error "Path cannot contain '..'\n"
      else if answer.isEmpty then .error ""
      else .ok answer
    ended := .unanswered }

end Command
end SchemaScaffold
