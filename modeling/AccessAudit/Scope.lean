import AccessAudit.Fault
import AccessAudit.Store.Session

/-!
# Scopes

A scope runs a piece of work on a session and decides what becomes of its changes: they are kept on
success, discarded in any case, or applied at once.  Scopes that decide open a transaction, so one of
them cannot be opened within another.
-/

namespace AccessAudit

open Store (Session)

/-- What becomes of the changes of a piece of work. -/
inductive Mode
  /-- Kept if the work succeeds and this is no dry run, discarded otherwise. -/
  | guardedMutation
  /-- Discarded. -/
  | alwaysRollBack
  /-- Applied at once, without a transaction. -/
  | autoCommit
  deriving Repr, DecidableEq

/-- A piece of work: it acts on a session and on other state, and ends in a result or a failure. -/
abbrev Work (ρ α : Type) := Session × ρ → Except Fault α × (Session × ρ)

namespace Scope

variable {ρ α : Type}

/-- Ends a transaction after work that succeeded.  Where that fails, its failure replaces the result
and no transaction is left open, because only a missing transaction can be the reason. -/
def finish
    (activity : Activity) (close : Session → Except Store.Fault Session)
    (a : α) (state : Session × ρ) : Except Fault α × (Session × ρ) :=
  match close state.1 with
  | .ok s => (.ok a, (s, state.2))
  | .error e => (.error ((Fault.ofStore e).within activity), state)

/-- Discards the changes of work that failed; its failure stands, whether or not there was still
something to discard. -/
def discard
    (f : Fault) (state : Session × ρ) : Except Fault α × (Session × ρ) :=
  match state.1.rollBack with
  | .ok s => (.error f, (s, state.2))
  | .error _ => (.error f, state)

/-- Runs a piece of work in a scope. -/
def run (mode : Mode) (dryRun : Bool) (work : Work ρ α) : Work ρ α := fun state =>
  match mode with
  | .autoCommit => work state
  | .guardedMutation | .alwaysRollBack =>
      match state.1.begin with
      | .error e => (.error ((Fault.ofStore e).within .openTransaction), state)
      | .ok s =>
          match work (s, state.2) with
          | (.error f, after) => discard f after
          | (.ok a, after) =>
              if mode = .guardedMutation ∧ dryRun = false then
                finish .commitTransaction Session.commit a after
              else finish .rollBackTransaction Session.rollBack a after

end Scope
end AccessAudit
