import AccessAudit.Fault
import AccessAudit.Store.Location
import AccessAudit.Store.Session

/-!
# Databases on disk

What stands at the paths of a disk, and how databases are created, opened and closed there.  Opening
never creates a file, creating never touches what exists, and whatever a session has committed is found
again by the next one.  That holds where the system and the store take a path to one place, and apart from the
names at which the store keeps files of its own beside a database: what stands there is lost.
-/

namespace AccessAudit
namespace Store

/-- What stands at a path. -/
inductive Node
  | directory
  /-- A file that is no database; the empty one may become one. -/
  | plain (text : String)
  /-- A database, and whether it keeps a write-ahead log. -/
  | database (tables : Tables) (writeAhead : Bool)
  deriving DecidableEq

/-- The steps of a path from the root. -/
abbrev Path := List String

/-- The pieces of a path between its slashes. -/
def Path.pieces (s : String) : List String :=
  (Text.splitAll '/' s.toList).map String.ofList

/-- Where a piece leads from a place.  The empty piece and a single dot stay there, two dots go back. -/
def Path.follow (path : Path) (piece : String) : Path :=
  if piece = "" ∨ piece = "." then path
  else if piece = ".." then path.dropLast
  else path ++ [piece]

/-- The place that a path names by its pieces alone. -/
def Path.ofText (s : String) : Path :=
  (Path.pieces s).foldl Path.follow []

/-- The place with an ending behind its name. -/
def Path.beside (path : Path) (ending : String) : Path :=
  path.dropLast ++ [path.getLast?.getD "" ++ ending]

/-- The places of the files that the store keeps beside a database while it is open: what it restores the
database from, the log of what is written ahead, and the index of that log. -/
def Path.journals (path : Path) : List Path :=
  ["-journal", "-wal", "-shm"].map path.beside

/-- A disk: what stands at each path. -/
structure Disk where
  nodes : List (Path × Node) := []
  deriving DecidableEq

/-- A connection to a database. -/
structure Connection where
  session : Session
  /-- The path under which the contents are kept. -/
  home : Option Path
  /-- The kind of journal. -/
  journal : String

namespace Disk

/-- What stands at a path. -/
def find? (d : Disk) (path : Path) : Option Node :=
  if path = [] then some .directory else d.nodes.lookup path

/-- The disk with something at a path. -/
def put (d : Disk) (path : Path) (n : Node) : Disk :=
  ⟨(path, n) :: d.nodes.filter fun entry => entry.1 ≠ path⟩

/-- Whether a file stands at a path. -/
def hasFile (d : Disk) (path : Path) : Bool :=
  (d.find? path).any (· ≠ .directory)

/-- Whether a directory stands at a path. -/
def hasDirectory (d : Disk) (path : Path) : Bool :=
  d.find? path = some .directory

/-- The place that the system takes a path to: it goes on from directories only. -/
def place? (d : Disk) (s : String) : Option Path :=
  (Path.pieces s).foldlM
    (fun path piece => if d.hasDirectory path then some (path.follow piece) else none) []

/-- The place that the store takes a path to.  It goes by the pieces alone, so it also goes back from where
nothing stands; but it goes on to no name in a file. -/
def storePlace? (d : Disk) (s : String) : Option Path :=
  (Path.pieces s).foldlM
    (fun path piece =>
      let next := path.follow piece
      if path.length < next.length ∧ d.hasFile path then none else some next)
    []

/-- Whether anything stands where the system takes a path to. -/
def contains (d : Disk) (path : String) : Bool :=
  path ≠ "" && ((d.place? path).bind d.find?).isSome

/-- Whether a file may be made at a path. -/
def mayCreate (d : Disk) (path : Path) : Bool :=
  (d.find? path).isNone && d.hasDirectory path.dropLast

/-- Writes a plain file, and tells whether that was possible. -/
def write (d : Disk) (path : String) (n : Node) : Bool × Disk :=
  match d.place? path with
  | none => (false, d)
  | some p => if d.hasFile p ∨ d.mayCreate p then (true, d.put p n) else (false, d)

/-- Removes the file at a path; a directory stays. -/
def removeFile (d : Disk) (path : Path) : Disk :=
  if d.hasFile path then ⟨d.nodes.filter fun entry => entry.1 ≠ path⟩ else d

/-- Makes a directory and those above it, and tells whether that was possible. -/
def makeDirectory (d : Disk) (path : String) : Bool × Disk :=
  let p := Path.ofText path
  let steps := (List.range p.length).map fun i => p.take (i + 1)
  steps.foldl
    (fun (done, d) q =>
      if !done then (done, d)
      else
        match d.find? q with
        | none => (true, d.put q .directory)
        | some .directory => (true, d)
        | some _ => (false, d))
    (true, d)

/-- The contents of the file at a location, before anything is read from it: what stands there, and
the disk with the file if it had to be made.  No directory may stand where the store keeps its own files. -/
def openFile (d : Disk) (name path : String) (access : Access) : Except Fault (Node × Disk) :=
  match d.storePlace? path with
  | none => .error (.cannotOpen name)
  | some p =>
      if p.journals.any d.hasDirectory then .error (.cannotOpen name)
      else
        match d.find? p with
        | some .directory => .error (.cannotOpen name)
        | some n => .ok (n, d)
        | none =>
            if access.create ∧ d.mayCreate p then .ok (.plain "", d.put p (.plain ""))
            else .error (.cannotOpen name)

/-- The tables of a file that is or may become a database, and whether it keeps a write-ahead log. -/
def contents : Node → Except Fault (Tables × Bool)
  | .database tables writeAhead => .ok (tables, writeAhead)
  | .plain "" => .ok (Tables.none, false)
  | _ => .error .notADatabase

/-- Switches the database of a file to a write-ahead log. -/
def enableWriteAhead (access : Access) : Tables × Bool → Except Fault Tables
  | (tables, true) => .ok tables
  | (tables, false) => if access.write then .ok tables else .error .readOnly

/-- Whether a file at the place of a journal was never begun as one. -/
def isUnbegun : Node → Bool
  | .plain text => text.toList.head?.all (· = '\x00')
  | _ => false

/-- Removes the files that stand where the store keeps its own beside a database.  Only a database that kept a
log before has no use for a journal, and leaves one alone that was never begun. -/
def clearJournals (d : Disk) (path : Path) (writeAhead : Bool) : Disk :=
  let journal := path.beside "-journal"
  let spared := writeAhead && (d.find? journal).any isUnbegun
  (path.journals.filter fun p => !(spared && p = journal)).foldl removeFile d

/-- A connection without a file. -/
def transientConnection (journal : String) (now : Int) : Connection :=
  { session := { committed := Tables.none, now := now }, home := none, journal := journal }

/-- Connects to a database and switches it to a write-ahead log.  `connecting` names the first step, and
`reading` the second where it is a step of its own. -/
def connect (d : Disk) (name : String) (access : Access) (now : Int)
    (connecting : Activity) (reading : Activity) : Except AccessAudit.Fault (Connection × Disk) := do
  match ← Fault.during connecting (Location.ofText access name) with
  | .transient journal => return (transientConnection journal now, d)
  | .file path access =>
      let (n, d) ← Fault.during connecting (d.openFile name path access)
      let found ← Fault.during reading (contents n)
      let tables ← Fault.during .enableWriteAhead (enableWriteAhead access found)
      let session : Session :=
        { committed := tables, now := now, limits := { readOnlyFile := !access.write } }
      .ok
        ({ session := session, home := some (Path.ofText path), journal := "wal" },
          (d.clearJournals (Path.ofText path) found.2).put (Path.ofText path) (.database tables true))

/-- Opens a session on an existing database. -/
def openSession (d : Disk) (name : String) (localNetworks : List Block) (now : Int) :
    Except AccessAudit.Fault (Connection × Disk) := do
  let (c, d) ← d.connect name ⟨true, false⟩ now (.connect name) (.readDatabase name)
  return ({ c with session := { c.session with localNetworks := localNetworks } }, d)

/-- Ends a connection: what was committed is kept, an open transaction is dropped. -/
def close (d : Disk) (c : Connection) : Disk :=
  match c.home with
  | none => d
  | some path => d.put path (.database c.session.committed true)

/-- Creates a database with both tables at a path where nothing stands. -/
def initDatabase (d : Disk) (name : String) (now : Int) : Except AccessAudit.Fault Disk := do
  if d.contains name then .error { cause := .alreadyExists name }
  else
    let (c, d) ← d.connect name ⟨true, true⟩ now (.createDatabase name) .enableWriteAhead
    let (made, session) := c.session.createSchema
    Fault.during .createSchema made
    return d.close { c with session := session }

/-- The number of logged events in the database at a path, if it can be read. -/
def eventCount? (d : Disk) (path : String) : Option Nat :=
  match d.find? (Path.ofText path) with
  | some (.database tables _) => tables.events.map List.length
  | _ => none

end Disk
end Store
end AccessAudit
