import SpanIndex.Declaration.Kind
import SpanIndex.Text.Name

/-!
# Labels for grouped declarations

A declaration that begins with `import`, `const`, `type` or `var` may hold a group of specs. The
`Taxonomy` says which kind each of the four is reported as; the older one has no kinds for constants
and variables.
-/

namespace SpanIndex

/-- The keyword of a declaration that may be a group. -/
inductive GroupKeyword where
  | imports | const | type | var
deriving DecidableEq, Inhabited

namespace GroupKeyword

/-- How the keyword is named in an answer. -/
def label : GroupKeyword → String
  | .imports => "Import"
  | .const => "Const"
  | .type => "Type"
  | .var => "Var"

/-- The keyword of the nodes of a given kind. -/
def ofNodeKind? (kind : String) : Option GroupKeyword :=
  if kind = "import_declaration" then some .imports
  else if kind = "const_declaration" then some .const
  else if kind = "type_declaration" then some .type
  else if kind = "var_declaration" then some .var
  else none

end GroupKeyword

/-- Which kinds grouped declarations are reported as. -/
inductive Taxonomy where
  | detailed | legacy
deriving DecidableEq, Inhabited

namespace Taxonomy

def groupKind : Taxonomy → GroupKeyword → Kind
  | _, .imports => .imports
  | _, .type => .type
  | .detailed, .const => .constant
  | .detailed, .var => .variable
  | .legacy, .const => .unclassified
  | .legacy, .var => .unclassified

def name : Taxonomy → String
  | .detailed => "detailed"
  | .legacy => "legacy"

/-- The names that a user may write. -/
def choices : List (String × Taxonomy) := [("detailed", .detailed), ("legacy", .legacy)]

/-- Reads the name that a user wrote. -/
def ofName (text : List Char) : Except (List Char) Taxonomy := Text.choose choices text

/-- What is said of a name that is not known. -/
def unknownMessage (name : List Char) : List Char :=
  "unknown taxonomy `".toList ++ name ++ "` (expected detailed or legacy)".toList

end Taxonomy

end SpanIndex
