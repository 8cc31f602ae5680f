import SpanIndex.Text.Blank

/-!
# Names of choices

Where a user picks one of a few choices by name, white space around the name and the case of ASCII
letters do not matter.
-/

namespace SpanIndex.Text

/-- The form of a name that is compared. -/
def normalizeName (text : List Char) : List Char := (trim text).map Char.toLower

/-- The choice with a given name; a name that none has is returned as it was compared. -/
def choose {α : Type} (choices : List (String × α)) (text : List Char) : Except (List Char) α :=
  let name := normalizeName text
  match choices.find? fun choice => choice.1.toList == name with
  | some choice => .ok choice.2
  | none => .error name

end SpanIndex.Text
