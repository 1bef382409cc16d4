import AccessAudit.Url.Host
import AccessAudit.Url.Path

/-!
# Addresses of resources

An address of a resource names a scheme, the place where it is served, a path, and possibly a query and
a fragment.  Reading brings every part into one form: blanks at the ends and line breaks are dropped,
schemes and domains are written in small letters, a port that goes without saying is left out, dots in
the path are resolved, and characters without a place in their part are escaped.
-/

namespace AccessAudit

/-- An address of a resource. -/
structure Url where
  scheme : List Char
  user : List Char := []
  password : List Char := []
  /-- The host; one without text is no host. -/
  host : Option Url.Host := none
  port : Option Nat := none
  path : Url.Path
  query : Option (List Char) := none
  fragment : Option (List Char) := none
  deriving DecidableEq

namespace Url

/-! ### Schemes -/

/-- The port that a scheme stands for. -/
def defaultPort (scheme : List Char) : Option Nat :=
  match String.ofList scheme with
  | "http" | "ws" => some 80
  | "https" | "wss" => some 443
  | "ftp" => some 21
  | _ => none

/-- Whether addresses with a scheme always name files. -/
def isFile (scheme : List Char) : Bool :=
  scheme = "file".toList

/-- Whether a scheme is one of those whose hosts are domains and whose slashes may lean either way. -/
def isSpecial (scheme : List Char) : Bool :=
  isFile scheme || (defaultPort scheme).isSome

/-- A character of a scheme after the first one. -/
def isSchemeChar (c : Char) : Bool :=
  c.isAlphanum || c == '+' || c == '-' || c == '.'

/-- The scheme of an address, and what follows its colon. -/
def splitScheme (s : List Char) : Option (List Char × List Char) :=
  match s.head?, s.dropWhile isSchemeChar with
  | some c, ':' :: rest =>
      if c.isAlpha then some ((s.takeWhile isSchemeChar).map Char.toLower, rest) else none
  | _, _ => none

/-- Whether a character parts segments of a path. -/
def isSlash (special : Bool) (c : Char) : Bool :=
  c == '/' || (special && c == '\\')

/-! ### Reading -/

/-- A text without controls and blanks at its ends, and without tabs and line breaks. -/
def clean (s : List Char) : List Char :=
  let isEdge (c : Char) : Bool := c.toNat ≤ 32
  (((s.dropWhile isEdge).reverse.dropWhile isEdge).reverse).filter fun c =>
    !(c == '\t' || c == '\n' || c == '\r')

/-- The text before the last occurrence of a character and the text after it. -/
def splitLast (c : Char) (s : List Char) : Option (List Char × List Char) :=
  (Text.splitOnce c s.reverse).map fun (after, before) => (before.reverse, after.reverse)

/-- Whether the text cut off an address ends before this character. -/
def endsAuthority (special : Bool) (c : Char) : Bool :=
  isSlash special c || c == '?' || c == '#'

/-- The host, and what follows its colon; a colon within brackets is part of the host. -/
def splitPort : Bool → List Char → List Char × Option (List Char)
  | _, [] => ([], none)
  | inside, c :: rest =>
      if c = ':' ∧ !inside then ([], some rest)
      else
        let (host, port) := splitPort (if c = '[' then true else if c = ']' then false else inside) rest
        (c :: host, port)

/-- The number of a port, unless it goes without saying, and what follows it, which can only be a
leaning slash. -/
def readPort (scheme s : List Char) : Except Fault (Option Nat × List Char) :=
  let ds := s.takeWhile Char.isDigit
  let rest := s.dropWhile Char.isDigit
  let n := Nat.ofDigitChars 10 ds 0
  if 65535 < n ∨ (rest ≠ [] ∧ rest.head? ≠ some '\\') then .error .portNumber
  else if ds = [] ∨ defaultPort scheme = some n then .ok (none, rest)
  else .ok (some n, rest)

/-- What stands between the slashes and the path. -/
structure Authority where
  user : List Char := []
  password : List Char := []
  host : Host
  port : Option Nat := none

/-- Reads what stands between the slashes and the path; `more` tells whether anything follows.  The
second part of the result belongs to the path. -/
def readAuthority (domains : Domains) (scheme : List Char) (more : Bool) (s : List Char) :
    Except Fault (Authority × List Char) := do
  let special := isSpecial scheme
  let (login, place) := ((splitLast '@' s).map fun (login, place) => (some login, place)).getD (none, s)
  if login = some [] ∧ place = [] ∧ more then .error .emptyHost
  else
    let (user, password) := (Text.splitOnce ':' (login.getD [])).getD (login.getD [], [])
    let (name, port) := splitPort false place
    if special ∧ name = [] then .error .emptyHost
    else
      let host ← if special then Host.ofText domains name else Host.ofPlainText name
      if host = .name [] ∧ (port.isSome ∨ user ≠ [] ∨ password ≠ []) then .error .emptyHost
      else
        let (number, rest) ← readPort scheme (port.getD [])
        return (⟨escape .user user, escape .user password, host, number⟩, rest)

/-- The text before the first occurrence of a character, and the text after it if there is one. -/
def cut (c : Char) (s : List Char) : List Char × Option (List Char) :=
  match Text.splitOnce c s with
  | some (before, after) => (before, some after)
  | none => (s, none)

/-- An address with the parts that follow its path. -/
def withEnd (u : Url) (query fragment : Option (List Char)) : Url :=
  { u with
    query := query.map (escape (.query (isSpecial u.scheme)))
    fragment := fragment.map (escape .fragment) }

/-- The address with an authority. -/
def readServed (domains : Domains) (scheme s : List Char) :
    Except Fault (Url × Option (List Char) × Option (List Char)) := do
  let special := isSpecial scheme
  let authority := s.takeWhile fun c => !endsAuthority special c
  let rest := s.dropWhile fun c => !endsAuthority special c
  let (a, extra) ← readAuthority domains scheme (rest ≠ []) authority
  let (before, fragment) := cut '#' rest
  let (place, query) := cut '?' before
  let path :=
    match extra ++ place with
    | [] => if special then Path.segments [[]] else Path.segments []
    | c :: more => Path.ofText (isSlash special) (if isSlash special c then more else c :: more)
  return ({ scheme := scheme, user := a.user, password := a.password, host := some a.host,
            port := a.port, path := path }, query, fragment)

/-- The address of a file. -/
def readFile (domains : Domains) (scheme s : List Char) :
    Except Fault (Url × Option (List Char) × Option (List Char)) := do
  let (before, fragment) := cut '#' s
  let (place, query) := cut '?' before
  let (host, path) ←
    match place with
    | c :: d :: rest =>
        if isSlash true c ∧ isSlash true d then do
          let name := rest.takeWhile fun c => !isSlash true c
          let host ← if name = [] then .ok (Host.name []) else Host.ofText domains name
          pure (if host = .name "localhost".toList then .name [] else host,
            rest.dropWhile fun c => !isSlash true c)
        else pure (Host.name [], place)
    | _ => pure (Host.name [], place)
  let path := Path.ofText (isSlash true) (path.dropWhile (isSlash true))
  return ({ scheme := scheme, host := some host, path := path }, query, fragment)

/-- The address without an authority. -/
def readUnserved (scheme s : List Char) : Url × Option (List Char) × Option (List Char) :=
  let (before, fragment) := cut '#' s
  let (place, query) := cut '?' before
  let path :=
    match place with
    | '/' :: rest => Path.ofText (isSlash false) rest
    | text => Path.bare (escape .bare text)
  ({ scheme := scheme, path := path }, query, fragment)

/-- The address that a text denotes. -/
def ofText (domains : Domains) (text : String) : Except Fault Url := do
  match splitScheme (clean text.toList) with
  | none => .error .relative
  | some (scheme, rest) =>
      let (u, query, fragment) ←
        if isFile scheme then readFile domains scheme rest
        else if isSpecial scheme then readServed domains scheme (rest.dropWhile (isSlash true))
        else
          match rest with
          | '/' :: '/' :: rest => readServed domains scheme rest
          | rest => .ok (readUnserved scheme rest)
      return u.withEnd query fragment

/-! ### Writing -/

/-- Whether an address names a host. -/
def hasHost (u : Url) : Bool :=
  u.host.isSome && u.host != some (.name [])

/-- The login of an address as it is written. -/
def loginChars (u : Url) : List Char :=
  if u.user = [] ∧ u.password = [] then []
  else u.user ++ (if u.password = [] then [] else ':' :: u.password) ++ ['@']

/-- What stands between scheme and path.  A path that starts with two slashes is kept apart from an
authority. -/
def authorityChars (u : Url) : List Char :=
  match u.host with
  | some host =>
      '/' :: '/' :: (u.loginChars ++ host.chars ++
        (match u.port with | some n => ':' :: Nat.toDigits 10 n | none => []))
  | none =>
      match u.path with
      | .segments ([] :: _ :: _) => ['/', '.']
      | _ => []

/-- The text of an address. -/
def chars (u : Url) : List Char :=
  u.scheme ++ ':' :: (u.authorityChars ++ u.path.chars ++
    (match u.query with | some q => '?' :: q | none => []) ++
    (match u.fragment with | some f => '#' :: f | none => []))

/-- The text of an address. -/
def text (u : Url) : String :=
  String.ofList u.chars

end Url
end AccessAudit
