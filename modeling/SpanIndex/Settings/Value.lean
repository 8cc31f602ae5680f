import SpanIndex.Toml.Value

/-!
# Settings with their origin

Settings come from several places. Each value remembers its `Origin`, so that a value that cannot be used is
reported with the place that it came from.

Layers of settings are put on top of each other by `Value.merge`: two tables are merged key by key, and in
every other case the upper value replaces the lower one.
-/

namespace SpanIndex.Settings

/-- Where a value comes from. -/
inductive Origin where
  | builtIn
  /-- A file, by the path that is shown for it. -/
  | file (label : List Char)
  | environment
deriving DecidableEq, Inhabited

/-- A value without parts. -/
inductive Scalar where
  | string (text : List Char)
  | char (c : Char)
  | bool (b : Bool)
  | signed (n : Int)
  | unsigned (n : Nat)
  | float (x : Binary64)
deriving DecidableEq, Inhabited

abbrev Key := List Char

/-- A value. -/
inductive Value where
  | scalar (origin : Origin) (s : Scalar)
  | array (origin : Origin) (items : List Value)
  | table (origin : Origin) (entries : List (Key × Value))
deriving Inhabited

abbrev Entries := List (Key × Value)

def Value.origin : Value → Origin
  | .scalar o _ | .array o _ | .table o _ => o

/-- Gives a key a value, in place of the one that it has. -/
def Entries.set (entries : Entries) (key : Key) (v : Value) : Entries :=
  entries.filter (fun e => e.1 != key) ++ [(key, v)]

mutual

/-- Puts a value on top of another one. -/
def Value.merge : Value → Value → Value
  | .table _ lower, .table o upper => .table o (mergeEntries lower upper)
  | _, v => v

/-- Puts the entries of a table on top of others. -/
def mergeEntries : List (Key × Value) → List (Key × Value) → List (Key × Value)
  | lower, [] => lower
  | lower, (k, v) :: upper =>
    let v := match lower.lookup k with
      | some old => Value.merge old v
      | none => v
    mergeEntries (Entries.set lower k v) upper

end

/-- The least key of a table, and its value. -/
def Entries.least? : Entries → Option (Key × Value)
  | [] => none
  | e :: es => match Entries.least? es with
    | some least => if e.1 < least.1 then some e else some least
    | none => some e

/-! ## Values of TOML files -/

/-- A moment is a table with this key. -/
def momentKey : Key := "$__toml_private_datetime".toList

mutual

/-- The settings that a TOML value stands for. -/
def Value.ofToml (o : Origin) : Toml → Value
  | .string s => .scalar o (.string s)
  | .integer n => .scalar o (.signed n)
  | .float x => .scalar o (.float x)
  | .boolean b => .scalar o (.bool b)
  | .moment text => .table o [(momentKey, .scalar o (.string text))]
  | .array items => .array o (itemsOfToml o items)
  | .table entries => .table o (entriesOfToml o entries)

def itemsOfToml (o : Origin) : List Toml → List Value
  | [] => []
  | v :: vs => Value.ofToml o v :: itemsOfToml o vs

def entriesOfToml (o : Origin) : List (List Char × Toml) → List (Key × Value)
  | [] => []
  | (k, v) :: es => (k, Value.ofToml o v) :: entriesOfToml o es

end

end SpanIndex.Settings
