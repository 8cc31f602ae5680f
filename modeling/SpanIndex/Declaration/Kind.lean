/-!
# Kinds of declarations

Every top-level declaration has one of seven kinds. A kind is written as its `label`.
-/

namespace SpanIndex

/-- The kind of a top-level declaration. -/
inductive Kind where
  | imports | constant | type | variable | function | method | unclassified
deriving DecidableEq, Inhabited

namespace Kind

def all : List Kind :=
  [.imports, .constant, .type, .variable, .function, .method, .unclassified]

/-- How the kind is written. -/
def label : Kind → String
  | .imports => "Import"
  | .constant => "Constant"
  | .type => "Type"
  | .variable => "Variable"
  | .function => "Function"
  | .method => "Method"
  | .unclassified => "Unclassified"

/-- Whether declarations of this kind have a name. -/
def isNamed : Kind → Bool
  | .type | .function | .method => true
  | .imports | .constant | .variable | .unclassified => false

/-- The kind with a given label. -/
def ofLabel? (text : List Char) : Option Kind := all.find? fun k => k.label.toList == text

/-- What is said of a text that is no label. -/
def unknownMessage (text : List Char) : List Char :=
  "unknown declaration kind `".toList ++ text ++ "`".toList

end Kind

end SpanIndex
