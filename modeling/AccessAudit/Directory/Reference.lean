import AccessAudit.Task.Context

/-!
# The reference set

The account ids of the directory replace the reference set of a session.  The old set is emptied
first, outside a transaction, and the new one is filled in a transaction of its own.
-/

namespace AccessAudit
namespace Directory

open Store (Session)

variable {σ : Type}

/-- Replaces the reference set by the ids of the directory and returns the number of different ones.
A directory that fails leaves the session as it was. -/
def loadReference (accounts : Except Fault (List Int)) (s : Session) : Except Fault Nat × Session :=
  match accounts with
  | .error f => (.error f, s)
  | .ok ids =>
      match Fault.during .prepareReference s.clearReference with
      | .error f => (.error f, s)
      | .ok s =>
          match Fault.plain s.begin with
          | .error f => (.error f, s)
          | .ok opened =>
              let filled := opened.addReference ids
              match Fault.during .storeReference filled.commit with
              | .error f => (.error f, filled)
              | .ok s => (Fault.plain (s.getReference.map List.length), s)

/-- The line of the report about a directory that could not be used. -/
def loadFailure (f : Fault) : String :=
  "ERROR:  Failed to load reference user ids from directory: " ++ f.text

/-- Loads the reference set for a run and returns the sections to be reported.  Without reports, or
without a directory, the set is not used. -/
def loadForRun (config : Configuration) (accounts : Option (Except Fault (List Int)))
    (state : Session × Context σ) : List String × (Session × Context σ) :=
  let (s, c) := state
  let c := { c with referenceLoaded := false }
  if !config.report then ([], (s, c))
  else
    match accounts with
    | none => ([], (s, c))
    | some accounts =>
        match loadReference accounts s with
        | (.ok _, s) => ([], (s, { c with referenceLoaded := true }))
        | (.error f, s) =>
            ([loadFailure f],
              (s,
                c.note
                  { severity := .warn
                    target := "iptrack_maint::tasks"
                    text :=
                      "Reference user ids unavailable action=\"load\" component=\"reference_uids\" error=" ++
                        f.headline }))

end Directory
end AccessAudit
