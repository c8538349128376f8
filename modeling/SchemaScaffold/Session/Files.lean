import SchemaScaffold.Session.Basic

/-!
Writing and removing files with a report. A file that is there is left alone unless it may be
overwritten, a dry run only reports what it would do, and every path touched gets one status line.
-/

namespace SchemaScaffold

/-- How files are written. -/
structure WriteOptions where
  /-- Overwrites files that are there. -/
  force : Bool := false
  /-- Reports, and writes nothing. -/
  dryRun : Bool := false
  deriving Repr, DecidableEq

/-- What happened to a path, or would have happened but for a dry run. -/
inductive Status
  | create | force | skip | update | remove | notFound
  | wouldCreate | wouldForce | wouldUpdate | wouldRemove
  deriving Repr, DecidableEq

namespace Status

def label : Status → String
  | .create => "create"
  | .force => "force"
  | .skip => "skip"
  | .update => "update"
  | .remove => "remove"
  | .notFound => "not found"
  | .wouldCreate => "would create"
  | .wouldForce => "would force"
  | .wouldUpdate => "would update"
  | .wouldRemove => "would remove"

/-- The columns of the longest label. -/
def labelWidth : Nat := 12

/-- The line that reports a path: the label, right-aligned, and the path. -/
def line (status : Status) (path : String) : String :=
  let label := status.label
  String.ofList (List.replicate (labelWidth - label.length) ' ') ++ label ++ "  " ++
    Console.escape path

end Status

namespace Command

/-- Reports a path, as seen from the working directory. -/
def report (status : Status) (path : Path) : Command Unit := do
  let directory ← workingDirectory
  say (status.line (path.relativeTo directory).text)

/-- Writes a file unless it is there and may not be overwritten. Tells whether it was written, or
would have been. -/
def writeFile (options : WriteOptions) (path : Path) (content : String) : Command Bool := do
  let there ← exists? path
  if there && !options.force then
    report .skip path
    return false
  else if options.dryRun then
    report (if there then .wouldForce else .wouldCreate) path
    return true
  else
    store path content
    report (if there then .force else .create) path
    return true

/-- Writes a file whose text was merged into what was there. -/
def updateFile (options : WriteOptions) (path : Path) (content : String) : Command Unit := do
  let there ← exists? path
  if options.dryRun then
    report (if there then .wouldUpdate else .wouldCreate) path
  else
    store path content
    report (if there then .update else .create) path

/-- Removes a directory with everything in it. Tells whether it was there. -/
def deleteDirectory (options : WriteOptions) (path : Path) : Command Bool := do
  if !(← exists? path) then
    report .notFound path
    return false
  else if options.dryRun then
    report .wouldRemove path
    return true
  else
    erase path
    report .remove path
    return true

end Command
end SchemaScaffold
