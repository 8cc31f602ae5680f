import SpanIndex.Number.Binary64

/-!
# TOML values
-/

namespace SpanIndex

/-- A value of a TOML document. -/
inductive Toml where
  | string (text : List Char)
  | integer (n : Int)
  | float (x : Binary64)
  | boolean (b : Bool)
  /-- A date, a time or both, as it is written. -/
  | moment (text : List Char)
  | array (items : List Toml)
  | table (entries : List (List Char × Toml))
deriving Inhabited

end SpanIndex
