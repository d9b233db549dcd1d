import ContentStore.CommandLine.Run
import ContentStore.Storage.Archive
import Std.Time.DateTime.Timestamp

/-!
# The program

The data directory holds the archive of the store and may hold a declared
catalog.  A run reads both, does the work of the request, and writes the
archive back, also after a failure: what a failed write leaves is decided by
the store.
-/

namespace ContentStore.CommandLine

open Time (Instant)

/-- The current time. -/
def currentInstant : IO Instant := do
  let t := (← Std.Time.Timestamp.now).val
  return (⟨t.second.val, 0⟩ : Instant).add 0 t.nano.val

/-- The contents of a file, if there is one. -/
def readIfPresent (directory name : String) : IO (Option String) := do
  let path := (← IO.currentDir) / directory / name
  if ← path.pathExists then return some (← IO.FS.readFile path) else return none

/-- Writes a file of the data directory. -/
def writeInto (directory name contents : String) : IO Unit := do
  let path := (← IO.currentDir) / directory
  IO.FS.createDirAll path
  IO.FS.writeFile (path / name) contents

/-- Name of the file that the store rests in. -/
def archiveName : String := "items.json"

/-- Name of the file with the declared catalog. -/
def catalogName : String := "catalog.yaml"

/-- Runs a request on the data directory. -/
def runOnDisk (r : Request) : IO Outcome := do
  let catalog ← readIfPresent r.directory catalogName
  let archived ← readIfPresent r.directory archiveName
  match archived.elim (some Archive.empty) Archive.read? with
  | none => return .failure .storage
  | some a =>
    let emitter : Emitter := if r.logEvents then .channel [] else .silent
    let blank := Store.blank Config.standard ⟨← currentInstant, 1⟩ a.supply emitter
    let (outcome, s) := execute catalog r { blank with tables := a.tables }
    writeInto r.directory archiveName (Archive.write ⟨s.tables, s.supply⟩)
    for e in s.emitter.receive.1 do
      IO.eprintln (e.kind.name ++ " " ++ e.version.item.id.text ++ " by " ++
        e.operator.principal.toText)
    return outcome

/-- Runs what the arguments ask for. -/
def runArguments (arguments : List String) : IO Outcome := do
  match Request.read arguments with
  | .error why => return .stopped why
  | .ok r =>
    try runOnDisk r
    catch _ => return .failure .storage

/-- Prints how a run ended. -/
def report (o : Outcome) : IO Unit := do
  match o with
  | .answer text => IO.print text
  | .failure e => IO.eprintln (Outcome.failureText e)
  | .stopped .version => IO.print Outcome.versionText
  | .stopped .help => IO.print Outcome.helpText
  | .stopped .misuse => IO.eprint Outcome.helpText

end ContentStore.CommandLine

/-- Runs the program. -/
def main (arguments : List String) : IO UInt32 := do
  let o ← ContentStore.CommandLine.runArguments arguments
  ContentStore.CommandLine.report o
  return o.exitCode.toUInt32
