import AccessAudit.Decimal.Numeral

/-!
# Grouping and ranking

Rows are gathered under a key, and ranked lists are cut at a limit.  Keys come in ascending order, and
keys that the order does not tell apart make one group.  The rows of a group keep the order in which they
were inserted.
-/

namespace AccessAudit
namespace Store

variable {α κ : Type}

/-- The rows gathered under their keys.  A group goes by the key of its first row. -/
def groups (le : κ → κ → Bool) (key : α → κ) (rows : List α) : List (κ × List α) :=
  let keyed := (rows.map fun r => (key r, r)).mergeSort fun a b => le a.1 b.1
  (keyed.splitBy fun a b => le b.1 a.1).filterMap fun run =>
    match run with
    | [] => none
    | (k, r) :: rest => some (k, r :: rest.map (·.2))

/-- The values of a column in ascending order, each once. -/
def distinct (le : κ → κ → Bool) (values : List κ) : List κ :=
  (groups le id values).map (·.1)

/-- The order of texts and of cells. -/
def textLe {α : Type} [LE α] [DecidableLE α] (a b : α) : Bool :=
  a ≤ b

/-- The first rows of a ranking.  A limit of 2 to the power of 63 or more does not limit. -/
def limit (topN : Nat) (rows : List α) : List α :=
  if topN % Decimal.word64Count ≤ Decimal.int64Max then rows.take (topN % Decimal.word64Count)
  else rows

/-- The verdict of the first criterion that tells two rows apart. -/
def firstVerdict (a b : α) : List (α → α → Ordering) → Ordering
  | [] => .eq
  | criterion :: rest =>
      match criterion a b with
      | .eq => firstVerdict a b rest
      | verdict => verdict

/-- Ranks rows by several criteria, of which the first that tells two rows apart decides. -/
def rankBy (criteria : List (α → α → Ordering)) (rows : List α) : List α :=
  rows.mergeSort fun a b => firstVerdict a b criteria != .gt

/-- Ascending by a number. -/
def ascending (f : α → Int) (a b : α) : Ordering :=
  compare (f a) (f b)

/-- Descending by a number. -/
def descending (f : α → Int) (a b : α) : Ordering :=
  compare (f b) (f a)

/-- Ascending by a key with an order of its own. -/
def ascendingBy (le : κ → κ → Bool) (f : α → κ) (a b : α) : Ordering :=
  if !(le (f b) (f a)) then .lt else if !(le (f a) (f b)) then .gt else .eq

end Store
end AccessAudit
