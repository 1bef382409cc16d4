import AccessAudit.Fault
import AccessAudit.Text.Blank
import AccessAudit.Text.CaseFold
import AccessAudit.Text.Pattern

/-!
# Directory entries as text

A directory answers with lines of attributes and values.  The values of one attribute are read from the
lines that consist of its name in any letter case, a colon, and one value between blanks or tabs; other
lines are passed over.  Every value that is found has to be a whole number of 64 bits.
-/

namespace AccessAudit
namespace Directory

/-- A blank or a tab. -/
def isGap (c : Char) : Bool :=
  c == ' ' || c == '\t'

/-- A character that is no blank of any script. -/
def isInk (c : Char) : Bool :=
  !Text.isBlank c

/-- One value between gaps, up to the end of the line. -/
def valueToEnd : Text.Pattern :=
  .inOrder (.many isGap) (.inOrder (.group (.atLeastOne isInk)) (.inOrder (.many isGap) .lineEnd))

/-- An attribute with its value, as a whole line. -/
def entry (name : List Char) : Text.Pattern :=
  .inOrder .lineStart (.word Text.sameLetter (.inOrder (.one (· = ':')) valueToEnd) name)

/-- The values of an attribute in a text, in order. -/
def values (name text : List Char) : List (List Char) :=
  ((entry name).findAll text).flatMap Text.Stretch.groups

/-- A value as a number. -/
def readValue (name : String) (value : List Char) : Except Fault Int :=
  match Decimal.readInt64 value with
  | .ok n => .ok n
  | .error fault =>
      .error
        { activities := [.readValue name (String.ofList value)]
          cause := .numeral fault }

/-- The numbers that an attribute has in a text, or what is wrong with the first value that is no
number. -/
def numbers (name text : String) : Except Fault (List Int) :=
  (values name.toList text.toList).mapM (readValue name)

end Directory
end AccessAudit
