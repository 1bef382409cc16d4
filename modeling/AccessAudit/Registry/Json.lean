import AccessAudit.Network.Address

/-!
# Documents of a registry

A registry answers with a document of nested lists and objects.  A document is read strictly, without
comments or surplus commas, and to any depth.  Strings may hold halves of surrogate pairs, which are no
text; a document with one is read all the same, and the string is then unreadable.
-/

namespace AccessAudit
namespace Registry

/-- A document.  Members of an object stand in their order and may repeat. -/
inductive Json
  | null
  | boolean (b : Bool)
  /-- A number that is written in digits only. -/
  | natural (n : Nat)
  /-- Any other number. -/
  | number
  /-- A string; none if it is no text. -/
  | string (text : Option String)
  | array (items : List Json)
  | object (members : List (Option String × Json))

namespace Json

/-- A blank between the parts of a document. -/
def isBlank (c : Char) : Bool :=
  c == ' ' || c == '\n' || c == '\t' || c == '\r'

/-- A text without the blanks at its start. -/
def skip (s : List Char) : List Char :=
  s.dropWhile isBlank

/-! ### Strings -/

/-- The number that four hexadecimal digits denote. -/
def fourDigits : List Char → Option (Nat × List Char)
  | a :: b :: c :: d :: rest => do
      let w ← Address.hexValue? a
      let x ← Address.hexValue? b
      let y ← Address.hexValue? c
      let z ← Address.hexValue? d
      return (((w * 16 + x) * 16 + y) * 16 + z, rest)
  | _ => none

/-- The character that a letter after a backslash stands for. -/
def escaped : Char → Option Nat
  | '"' => some 34
  | '\\' => some 92
  | '/' => some 47
  | 'b' => some 8
  | 'f' => some 12
  | 'n' => some 10
  | 'r' => some 13
  | 't' => some 9
  | _ => none

/-- The code units of a string behind its opening quote, and what follows its closing quote.  At most
`fuel` units are read. -/
def unitsUpTo : Nat → List Char → Option (List Nat × List Char)
  | 0, _ => none
  | _, [] => none
  | fuel + 1, c :: rest =>
      if c = '"' then some ([], rest)
      else if c = '\\' then
        match rest with
        | 'u' :: rest => do
            let (n, rest) ← fourDigits rest
            let (units, rest) ← unitsUpTo fuel rest
            return (n :: units, rest)
        | e :: rest => do
            let n ← escaped e
            let (units, rest) ← unitsUpTo fuel rest
            return (n :: units, rest)
        | [] => none
      else if c.toNat < 32 then none
      else do
        let (units, rest) ← unitsUpTo fuel rest
        return (c.toNat :: units, rest)

/-- The text of code units, where two halves that follow each other make one character. -/
def textOfUnits : List Nat → Option (List Char)
  | [] => some []
  | [n] => if 0xD800 ≤ n ∧ n < 0xE000 then none else some [Char.ofNat n]
  | n :: m :: rest =>
      if 0xD800 ≤ n ∧ n < 0xDC00 then
        if 0xDC00 ≤ m ∧ m < 0xE000 then
          (textOfUnits rest).map
            (Char.ofNat (0x10000 + (n - 0xD800) * 0x400 + (m - 0xDC00)) :: ·)
        else none
      else if 0xDC00 ≤ n ∧ n < 0xE000 then none
      else (textOfUnits (m :: rest)).map (Char.ofNat n :: ·)

/-- A string behind its opening quote. -/
def quoted (s : List Char) : Option (Option String × List Char) := do
  let (units, rest) ← unitsUpTo (s.length + 1) s
  return ((textOfUnits units).map String.ofList, rest)

/-! ### Numbers -/

/-- At least one digit at the start of a text, and the rest. -/
def digits (s : List Char) : Option (List Char × List Char) :=
  if s.takeWhile Char.isDigit = [] then none
  else some (s.takeWhile Char.isDigit, s.dropWhile Char.isDigit)

/-- The digits of a whole number, of which only zero itself starts with a zero. -/
def wholeDigits (s : List Char) : Option (List Char × List Char) := do
  let (ds, rest) ← digits s
  if ds.head? = some '0' ∧ 1 < ds.length then none else some (ds, rest)

/-- What follows a fraction, if there is one, and whether there is. -/
def afterFraction : List Char → Option (Bool × List Char)
  | '.' :: rest => (digits rest).map fun (_, rest) => (true, rest)
  | s => some (false, s)

/-- What follows an exponent, if there is one, and whether there is. -/
def afterExponent : List Char → Option (Bool × List Char)
  | c :: rest =>
      if c = 'e' ∨ c = 'E' then
        let rest := if rest.head? = some '+' ∨ rest.head? = some '-' then rest.drop 1 else rest
        (digits rest).map fun (_, rest) => (true, rest)
      else some (false, c :: rest)
  | [] => some (false, [])

/-- A number. -/
def numeric (s : List Char) : Option (Json × List Char) := do
  let negative := s.head? = some '-'
  let (ds, rest) ← wholeDigits (if negative then s.drop 1 else s)
  let (fraction, rest) ← afterFraction rest
  let (exponent, rest) ← afterExponent rest
  let plain := !negative && !fraction && !exponent
  return (if plain then natural (Nat.ofDigitChars 10 ds 0) else number, rest)

/-! ### Documents -/

/-- What follows a word. -/
def afterWord (word s : List Char) : Option (List Char) :=
  if word.isPrefixOf s then some (s.drop word.length) else none

mutual

/-- A document at the start of a text, and the rest.  The fuel bounds the number of steps. -/
def valueUpTo : Nat → List Char → Option (Json × List Char)
  | 0, _ => none
  | fuel + 1, s =>
      match skip s with
      | '{' :: rest =>
          match skip rest with
          | '}' :: rest => some (object [], rest)
          | rest => do
              let (members, rest) ← membersUpTo fuel rest
              return (object members, rest)
      | '[' :: rest =>
          match skip rest with
          | ']' :: rest => some (array [], rest)
          | rest => do
              let (items, rest) ← itemsUpTo fuel rest
              return (array items, rest)
      | '"' :: rest => do
          let (text, rest) ← quoted rest
          return (string text, rest)
      | 'n' :: rest => (afterWord "ull".toList rest).map fun rest => (null, rest)
      | 't' :: rest => (afterWord "rue".toList rest).map fun rest => (boolean true, rest)
      | 'f' :: rest => (afterWord "alse".toList rest).map fun rest => (boolean false, rest)
      | rest => numeric rest

/-- The items of a list up to its end. -/
def itemsUpTo : Nat → List Char → Option (List Json × List Char)
  | 0, _ => none
  | fuel + 1, s => do
      let (item, rest) ← valueUpTo fuel s
      match skip rest with
      | ']' :: rest => return ([item], rest)
      | ',' :: rest =>
          let (items, rest) ← itemsUpTo fuel rest
          return (item :: items, rest)
      | _ => none

/-- The members of an object up to its end. -/
def membersUpTo : Nat → List Char → Option (List (Option String × Json) × List Char)
  | 0, _ => none
  | fuel + 1, s =>
      match skip s with
      | '"' :: rest => do
          let (key, rest) ← quoted rest
          match skip rest with
          | ':' :: rest =>
              let (value, rest) ← valueUpTo fuel rest
              match skip rest with
              | '}' :: rest => return ([(key, value)], rest)
              | ',' :: rest =>
                  let (members, rest) ← membersUpTo fuel rest
                  return ((key, value) :: members, rest)
              | _ => none
          | _ => none
      | _ => none

end

/-- The document that a text consists of. -/
def ofText? (text : String) : Option Json := do
  let s := text.toList
  let (value, rest) ← valueUpTo (2 * s.length + 2) s
  if skip rest = [] then some value else none

end Json
end Registry
end AccessAudit
