import AccessAudit.Program
import AccessAudit.Store.Snapshot
import Std.Time.DateTime.Timestamp

/-!
# The command line

The program in its surroundings: its arguments and environment, the clock, and the file of its database.
It has no connection to a directory, a registry or a relay, so it finds none of them.
-/

namespace AccessAudit
namespace Console

open CommandLine Store

/-- The variables that the program looks at. -/
def watched : List String :=
  "RUST_LOG" :: Key.all.filterMap Key.standIn?

/-- The variables that are set. -/
def readEnvironment : IO (List (String × String)) := do
  let found ← watched.mapM fun name => do
    let value ← IO.getEnv name
    return value.map fun v => (name, v)
  return found.filterMap id

/-- What stands at a path: what can be found but not read is taken for a directory. -/
def readNode (path : String) : IO (Option Node) := do
  try
    let text ← IO.FS.readFile path
    return some (Snapshot.read text)
  catch
    | .noFileOrDirectory _ _ _ => return none
    | _ => return some .directory

/-- A path and the paths above it. -/
def pathAndAbove (path : String) : List String :=
  let steps := Text.splitAll '/' path.toList
  (List.range steps.length).map fun i =>
    String.ofList (List.intercalate ['/'] (steps.take (i + 1)))

/-- What stands at a path and above it. -/
def readDisk (path : String) : IO Disk := do
  (pathAndAbove path).foldlM
    (fun disk p => do
      match ← readNode p with
      | some n => return disk.put (Path.ofText p) n
      | none => return disk)
    {}

/-- The path of the file that holds a database, if one does. -/
def filePath? (database : String) : Option String :=
  match Location.ofText ⟨true, true⟩ database with
  | .ok (.file path _) => some path
  | _ => none

/-- Writes the database at a path to its file. -/
def writeBack (disk : Disk) (path : String) : IO Unit :=
  match disk.find? (Path.ofText path) with
  | some (.database tables writeAhead) => IO.FS.writeFile path (Snapshot.write tables writeAhead)
  | _ => return ()

/-- What surrounds the program where nobody else can be reached. -/
def surroundings (now : Int) (environment : List (String × String)) (disk : Disk) : Surroundings :=
  { now := now
    environment := environment
    disk := disk
    search := fun _ => .missing
    serve := fun _ => .failed
    relay := fun _ =>
      { unreachable := some "Network is unreachable (os error 101)"
        react := fun _ => .broken "Network is unreachable (os error 101)" } }

/-- Runs the program and returns its code. -/
def run (args : List String) : IO UInt32 := do
  let now := (← Std.Time.Timestamp.now).toSecondsSinceUnixEpoch.val
  let environment ← readEnvironment
  let path? := (Options.parse environment args).toOption.bind fun o => filePath? o.database
  let disk ← match path? with
    | some path => readDisk path
    | none => pure {}
  let ending := Program.run (surroundings now environment disk) args
  match path? with
  | some path => writeBack ending.disk path
  | none => pure ()
  IO.print ending.printed
  for line in ending.log do
    IO.eprintln line
  return UInt32.ofNat ending.code

end Console
end AccessAudit

/-- Runs the program. -/
def main (args : List String) : IO UInt32 :=
  AccessAudit.Console.run args
