import AccessAudit.Directory.Ldif
import AccessAudit.Text.Utf8

/-!
# Searching the directory

The accounts of the directory are asked for through the search program, whose arguments name the
server, the base, the filter and the one attribute that is wanted.  A program that is missing or that
reports no success is a failure; otherwise its output is read as entries.
-/

namespace AccessAudit
namespace Directory

/-- What to search for. -/
structure Search where
  uri : Option String := none
  base : String
  filter : String
  deriving Repr, DecidableEq

/-- The filter that selects accounts, unless another one is given. -/
def defaultFilter : String := "(objectClass=posixAccount)"

/-- The attribute that holds account ids. -/
def idAttribute : String := "uidNumber"

/-- The arguments of the search program. -/
def Search.arguments (q : Search) : List String :=
  ["-x", "-LLL"] ++ (match q.uri with | some uri => ["-H", uri] | none => []) ++
    ["-b", q.base, q.filter, idAttribute]

/-- How a program ended. -/
inductive ExitStatus
  | code (n : Nat)
  | signal (n : Nat)
  deriving Repr, DecidableEq

/-- The name of a signal. -/
def signalName : Nat → String
  | 1 => " (SIGHUP)"
  | 2 => " (SIGINT)"
  | 3 => " (SIGQUIT)"
  | 4 => " (SIGILL)"
  | 5 => " (SIGTRAP)"
  | 6 => " (SIGABRT)"
  | 7 => " (SIGBUS)"
  | 8 => " (SIGFPE)"
  | 9 => " (SIGKILL)"
  | 10 => " (SIGUSR1)"
  | 11 => " (SIGSEGV)"
  | 12 => " (SIGUSR2)"
  | 13 => " (SIGPIPE)"
  | 14 => " (SIGALRM)"
  | 15 => " (SIGTERM)"
  | 16 => " (SIGSTKFLT)"
  | 17 => " (SIGCHLD)"
  | 18 => " (SIGCONT)"
  | 19 => " (SIGSTOP)"
  | 20 => " (SIGTSTP)"
  | 21 => " (SIGTTIN)"
  | 22 => " (SIGTTOU)"
  | 23 => " (SIGURG)"
  | 24 => " (SIGXCPU)"
  | 25 => " (SIGXFSZ)"
  | 26 => " (SIGVTALRM)"
  | 27 => " (SIGPROF)"
  | 28 => " (SIGWINCH)"
  | 29 => " (SIGIO)"
  | 30 => " (SIGPWR)"
  | 31 => " (SIGSYS)"
  | _ => ""

/-- The wording of an exit status. -/
def ExitStatus.text : ExitStatus → String
  | .code n => s!"exit status: {n}"
  | .signal n => s!"signal: {n}" ++ signalName n

/-- What the search program did. -/
inductive SearchReply
  | missing
  | finished (status : ExitStatus) (output diagnostics : List Nat)
  deriving Repr, DecidableEq

/-- Whether the arguments can be given to a program. -/
def Search.canRun (q : Search) : Bool :=
  q.arguments.all fun a => !a.toList.contains '\x00'

/-- The account ids that the search program found. -/
def accountIds (q : Search) (reply : SearchReply) : Except Fault (List Int) :=
  if !q.canRun then .error { activities := [.runSearch], cause := .nulInArgument }
  else
    match reply with
    | .missing => .error { activities := [.runSearch], cause := .missingProgram }
    | .finished (.code 0) output _ => numbers idAttribute (Text.ofBytes output)
    | .finished status _ diagnostics =>
        .error
          { cause :=
              .searchExited status.text
                (String.ofList (Text.trim (Text.ofBytes diagnostics).toList)) }

end Directory
end AccessAudit
