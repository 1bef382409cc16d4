import AccessAudit.Store.Fault

/-!
# Cells of a text column

A text column holds texts, and bytes that were bound as such.  Bytes equal no text, also where they spell
one, and in the order of the store they come after all texts.
-/

namespace AccessAudit
namespace Store

/-- What a text column holds. -/
inductive Cell
  | text (s : String)
  | bytes (b : List UInt8)
  deriving DecidableEq

namespace Cell

instance : Coe String Cell := ⟨text⟩

/-- Bytes as numbers, by which they are compared and read. -/
def values (b : List UInt8) : List Nat :=
  b.map (·.toNat)

/-- Whether one cell comes before another one or is equal to it. -/
def isLe : Cell → Cell → Bool
  | text s, text t => s ≤ t
  | text _, bytes _ => true
  | bytes _, text _ => false
  | bytes a, bytes b => !(values b).lex (values a)

instance : LE Cell := ⟨fun a b => isLe a b = true⟩

instance : LT Cell := ⟨fun a b => isLe b a = false⟩

instance : DecidableLE Cell := fun a b => inferInstanceAs (Decidable (isLe a b = true))

instance : DecidableLT Cell := fun a b => inferInstanceAs (Decidable (isLe b a = false))

@[simp] theorem text_le_text
    {s t : String} :
    text s ≤ text t ↔ s ≤ t :=
  decide_eq_true_iff

@[simp] theorem text_lt_text
    {s t : String} :
    text s < text t ↔ s < t := by
  change decide (t ≤ s) = false ↔ s < t
  rw [decide_eq_false_iff_not, String.not_le]

/-- The type that the reader of a row finds. -/
def type : Cell → ValueType
  | text _ => .text
  | bytes _ => .blob

/-- Whether the cell holds bytes. -/
def isBytes : Cell → Bool
  | text _ => false
  | bytes _ => true

/-- The text of a cell: bytes are taken for UTF-8. -/
def toText : Cell → String
  | text s => s
  | bytes b => Text.ofBytes (values b)

/-- Why the cell has no text. -/
def textFault? : Cell → Option Text.Utf8Fault
  | text _ => none
  | bytes b => Text.utf8Fault? (values b)

end Cell
end Store
end AccessAudit
