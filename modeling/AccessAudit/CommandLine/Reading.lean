import AccessAudit.CommandLine.Switch
import AccessAudit.Text.Blank

/-!
# Reading the command line

The words of a command line are read from left to right.  A word is a long name, one or more letters, or
the value of the key before it.  A value in a word of its own is looked at only when the next switch is
read, so that a word that belongs to no switch is reported first.
-/

namespace AccessAudit
namespace CommandLine

/-- What has been given: the flags and the values of keys in the order of the command line. -/
structure Given where
  flags : List Flag := []
  values : List (Key × String) := []
  deriving Repr, DecidableEq

namespace Given

/-- Whether a key has been given. -/
def has (g : Given) (k : Key) : Bool :=
  g.values.any fun (other, _) => other = k

/-- The values of a key, in order. -/
def valuesOf (g : Given) (k : Key) : List String :=
  g.values.filterMap fun (other, text) => if other = k then some text else none

/-- The value of a key that is given at most once. -/
def value? (g : Given) (k : Key) : Option String :=
  (g.valuesOf k).head?

/-- Adds a flag. -/
def addFlag (g : Given) (f : Flag) : Except OptionFault Given :=
  match f with
  | .help => .error .help
  | .version => .error .version
  | f =>
      if !f.isCounted ∧ f ∈ g.flags then .error .repeated
      else .ok { g with flags := g.flags ++ [f] }

/-- Adds the value of a key. -/
def addValue (g : Given) (k : Key) (text : String) : Except OptionFault Given :=
  if !k.isCollected ∧ g.has k then .error .repeated
  else
    match k.fault? text with
    | some fault => .error fault
    | none => .ok { g with values := g.values ++ [(k, text)] }

end Given

/-- What has been read: what was given, and a key at the end that is still to be looked at, with its
value if that has been read. -/
structure Progress where
  given : Given := {}
  pending : Option (Key × Option String) := none
  deriving Repr, DecidableEq

namespace Progress

/-- Looks at the key at the end. -/
def settle (p : Progress) : Except OptionFault Given :=
  match p.pending with
  | none => .ok p.given
  | some (_, none) => .error .missing
  | some (k, some text) => p.given.addValue k text

/-- Reads a flag. -/
def flag (p : Progress) (f : Flag) : Except OptionFault Progress := do
  let g ← p.settle
  return { given := ← g.addFlag f }

/-- Reads a key with a value in the same word, or without one. -/
def key (p : Progress) (k : Key) (attached : Option String) : Except OptionFault Progress := do
  let g ← p.settle
  match attached with
  | none => .ok { given := g, pending := some (k, none) }
  | some text => return { given := ← g.addValue k text }

/-- Reads letters; the rest of the word behind the letter of a key is its value, of which an equals sign
in front is no part. -/
def letters (p : Progress) : List Char → Except OptionFault Progress
  | [] => .ok p
  | c :: rest =>
      match Switch.ofLetter? c with
      | none => .error .unknown
      | some (.flag f) => do letters (← p.flag f) rest
      | some (.key k) =>
          match rest with
          | [] => p.key k none
          | '=' :: text => p.key k (some (String.ofList text))
          | text => p.key k (some (String.ofList text))

/-- Reads a long name, with a value behind an equals sign if there is one. -/
def long (p : Progress) (s : List Char) : Except OptionFault Progress :=
  let (name, attached) :=
    match Text.splitOnce '=' s with
    | some (name, text) => (name, some (String.ofList text))
    | none => (s, none)
  match Switch.ofName? name, attached with
  | none, _ => .error .unknown
  | some (.flag _), some _ => .error .surplus
  | some (.flag f), none => p.flag f
  | some (.key k), attached => p.key k attached

/-- Digits with at most one dot, which is not the first character. -/
def isMantissa (s : List Char) : Bool :=
  s.head? ≠ some '.' && s.all (fun c => c.isDigit || c == '.') && s.count '.' ≤ 1

/-- Whether what follows a minus sign makes a number: digits with a dot, and an exponent of digits. -/
def isNumber (s : List Char) : Bool :=
  let isMark (c : Char) : Bool := c == 'e' || c == 'E'
  match s.dropWhile fun c => !isMark c with
  | [] => isMantissa s
  | _ :: exponent =>
      let mantissa := s.takeWhile fun c => !isMark c
      mantissa ≠ [] && isMantissa mantissa && exponent ≠ [] && exponent.all Char.isDigit

/-- Reads a word that is no switch, which has to be the value of the key at the end. -/
def plain (p : Progress) (text : String) : Except OptionFault Progress :=
  match p.pending with
  | some (k, none) => .ok { p with pending := some (k, some text) }
  | _ => .error .unknown

/-- Whether a number with a minus sign would be the value of the key at the end. -/
def awaitsNegative (p : Progress) : Bool :=
  match p.pending with
  | some (k, none) => k.admitsNegative
  | _ => false

/-- Reads a word. -/
def word (p : Progress) (text : String) : Except OptionFault Progress :=
  match text.toList with
  | '-' :: '-' :: s => p.long s
  | '-' :: c :: rest =>
      if p.awaitsNegative ∧ isNumber (c :: rest) then p.plain text else p.letters (c :: rest)
  | _ => p.plain text

/-- Reads words.  A word of two minus signs ends the switches, and nothing may follow it. -/
def words (p : Progress) : List String → Except OptionFault Given
  | [] => p.settle
  | text :: rest =>
      if text = "--" then
        match rest with
        | [] => p.settle
        | _ => .error .unknown
      else
        match p.word text with
        | .ok p => words p rest
        | .error fault => .error fault

end Progress

/-- What a command line gives. -/
def read (args : List String) : Except OptionFault Given :=
  Progress.words {} args

/-- What is given, with a variable of the environment in place of a key that is not. -/
def Given.addVariable (environment : List (String × String)) (g : Given) (k : Key) :
    Except OptionFault Given :=
  match g.has k, k.standIn?.bind (List.lookup · environment) with
  | false, some text => g.addValue k text
  | _, _ => .ok g

/-- What is given on the command line or in the environment. -/
def readAll (environment : List (String × String)) (args : List String) :
    Except OptionFault Given := do
  Key.all.foldlM (Given.addVariable environment) (← read args)

end CommandLine
end AccessAudit
