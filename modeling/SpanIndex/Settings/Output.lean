import SpanIndex.Declaration.Classify
import SpanIndex.Format
import SpanIndex.Settings.Value
import SpanIndex.Text.Quoted

/-!
# The output settings

The program has one section of settings, `output`: the format, the taxonomy and whether methods are
qualified. `OutputSettings.ofEntries` takes them from the merged settings. Keys that are not known do not
matter; a value that cannot be used is an error, which names the key and the origin of the value.
-/

namespace SpanIndex.Settings

/-- How an index is written. -/
structure OutputSettings where
  format : Format := .csv
  options : Options := {}
deriving DecidableEq, Inhabited

/-! ## Errors -/

/-- What was found where something else is needed. -/
inductive Found where
  | scalar (s : Scalar)
  | sequence
  | map
deriving DecidableEq, Inhabited

def Found.ofValue : Value → Found
  | .scalar _ s => .scalar s
  | .array .. => .sequence
  | .table .. => .map

/-- What is needed. -/
inductive Needed where
  | formatName | taxonomyName | boolean | outputSection | name | nothing
deriving DecidableEq, Inhabited

/-- Why a value cannot be used. -/
inductive Problem where
  | wrongType (found : Found) (needed : Needed)
  | unknownName (found : List Char) (names : List String)
deriving DecidableEq, Inhabited

/-- A value that cannot be used, with its path of keys and its origin. -/
structure Misfit where
  problem : Problem
  path : List Key
  origin : Origin
deriving DecidableEq, Inhabited

/-- The decimal text of an integer. -/
def integerText : Int → List Char
  | .ofNat n => Text.decimal n
  | .negSucc n => '-' :: Text.decimal (n + 1)

/-- A text between backticks. -/
def ticked (text : List Char) : List Char := '\x60' :: text ++ ['\x60']

def Scalar.description : Scalar → List Char
  | .string s => "string ".toList ++ Text.quoted s
  | .char c => "string ".toList ++ Text.quoted [c]
  | .bool b => (if b then "bool true" else "bool false").toList
  | .signed n => "signed int ".toList ++ ticked (integerText n)
  | .unsigned n => "unsigned int ".toList ++ ticked (Text.decimal n)
  | .float x => "float ".toList ++ ticked x.text

def Found.description : Found → List Char
  | .scalar s => s.description
  | .sequence => "sequence".toList
  | .map => "map".toList

def Needed.description : Needed → String
  | .formatName => "enum OutputFormat"
  | .taxonomyName => "enum Taxonomy"
  | .boolean => "a boolean"
  | .outputSection => "struct OutputConfig"
  | .name => "enum"
  | .nothing => "unit"

/-- A choice between names: two are joined by "or", more are listed. -/
def oneOf (names : List String) : List Char :=
  match names.map fun n => ticked n.toList with
  | [a, b] => a ++ " or ".toList ++ b
  | [a] => a
  | texts => "one of ".toList ++ [',', ' '].intercalate texts

def Problem.message : Problem → List Char
  | .wrongType found needed =>
    "invalid type: found ".toList ++ found.description ++ ", expected ".toList
      ++ needed.description.toList
  | .unknownName found names =>
    "unknown variant: found ".toList ++ ticked found ++ ", expected ".toList ++ ticked (oneOf names)

/-- The key of a value, as it is shown: for a variable of the environment in capitals. -/
def Origin.showKey (path : List Key) : Origin → List Char
  | .environment => ['.'].intercalate (path.map fun k => k.map Char.toUpper)
  | _ => ['.'].intercalate ("default".toList :: path)

def Origin.description : Origin → List Char
  | .builtIn => "built-in settings".toList
  | .file label => label ++ " TOML file".toList
  | .environment => "`DECLMAP_` environment variable(s)".toList

def Misfit.message (m : Misfit) : List Char :=
  m.problem.message ++ " for key ".toList ++ Text.quoted (m.origin.showKey m.path)
    ++ " in ".toList ++ m.origin.description

/-! ## Reading settings -/

/-- Reads a name. A table in place of a name stands for its first key, which must not have a value of
its own; since every key has one, there is always something to report. -/
def readName {α : Type} (names : List (String × α)) (needed : Needed) (path : List Key) :
    Value → Except Misfit α
  | .scalar o (.string s) => match names.find? fun n => n.1.toList == s with
    | some n => .ok n.2
    | none => .error ⟨.unknownName s (names.map (·.1)), path, o⟩
  | .table o entries => match Entries.least? entries with
    | none => .error ⟨.wrongType .map .name, path, o⟩
    | some (k, v) =>
      if names.any fun n => n.1.toList == k then
        .error ⟨.wrongType (.ofValue v) .nothing, path ++ [k], v.origin⟩
      else .error ⟨.unknownName k (names.map (·.1)), path ++ [k], v.origin⟩
  | v => .error ⟨.wrongType (.ofValue v) needed, path, v.origin⟩

/-- The names of formats in settings. -/
def formatNames : List (String × Format) := [("csv", .csv), ("tsv", .tsv), ("jsonl", .jsonl)]

/-- The names of taxonomies in settings. -/
def taxonomyNames : List (String × Taxonomy) := [("detailed", .detailed), ("legacy", .legacy)]

def readFormat (path : List Key) (v : Value) : Except Misfit Format :=
  readName formatNames .formatName path v

def readTaxonomy (path : List Key) (v : Value) : Except Misfit Taxonomy :=
  readName taxonomyNames .taxonomyName path v

def readBool (path : List Key) : Value → Except Misfit Bool
  | .scalar _ (.bool b) => .ok b
  | v => .error ⟨.wrongType (.ofValue v) .boolean, path, v.origin⟩

/-- Reads a value that may be left out. -/
def readOr {α : Type} (default : α) (read : List Key → Value → Except Misfit α) (path : List Key) :
    Option Value → Except Misfit α
  | none => .ok default
  | some v => read path v

def sectionKey : Key := "output".toList
def formatKey : Key := "format".toList
def taxonomyKey : Key := "taxonomy".toList
def qualifyKey : Key := "qualify_methods".toList

/-- Reads a section that is a table, its keys in alphabetical order. -/
def readTable (entries : Entries) : Except Misfit OutputSettings := do
  let format ← readOr .csv readFormat [sectionKey, formatKey] (entries.lookup formatKey)
  let qualify ← readOr true readBool [sectionKey, qualifyKey] (entries.lookup qualifyKey)
  let taxonomy ← readOr .detailed readTaxonomy [sectionKey, taxonomyKey] (entries.lookup taxonomyKey)
  return ⟨format, ⟨taxonomy, qualify⟩⟩

/-- Reads a section that is an array: the format, the taxonomy and whether methods are qualified, where the
last ones may be left out. -/
def readArray (items : List Value) : Except Misfit OutputSettings := do
  let format ← readOr .csv readFormat [sectionKey, ['0']] items[0]?
  let taxonomy ← readOr .detailed readTaxonomy [sectionKey, ['1']] items[1]?
  let qualify ← readOr true readBool [sectionKey, ['2']] items[2]?
  return ⟨format, ⟨taxonomy, qualify⟩⟩

/-- Reads the section. -/
def readSection : Value → Except Misfit OutputSettings
  | .table _ entries => readTable entries
  | .array _ items => readArray items
  | v => .error ⟨.wrongType (.ofValue v) .outputSection, [sectionKey], v.origin⟩

/-- The output settings among all settings. -/
def OutputSettings.ofEntries (entries : Entries) : Except Misfit OutputSettings :=
  match entries.lookup sectionKey with
  | none => .ok {}
  | some v => readSection v

end SpanIndex.Settings
