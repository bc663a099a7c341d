import Concord.Text.Lowercase
import Concord.Text.Pieces

/-!
# Codes

Categories and numbers are written as codes, each with a few other names. A code is recognised in
any case and with blanks around it.
-/

namespace Concord.Code

/-- The form in which codes are compared: without the blanks around it, in lower case. -/
def key (s : String) : String := .ofList (Text.lowercase (Text.trim s.toList))

/-- The first of some values one of whose names, in lower case, is the code. -/
def find? {α : Type} (names : α → List String) (values : List α) (s : String) : Option α :=
  values.find? fun a => (names a).contains (key s)

end Concord.Code
