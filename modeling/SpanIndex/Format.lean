import SpanIndex.Index
import SpanIndex.Json.Read

/-!
# Writing an index

An index is written as a line for the package and then a line for each record, in one of three formats.
`csv` and `tsv` put a delimiter between the fields of a record and escape nothing; `jsonl` writes every
line as a JSON object.

What is written as `csv` can be read again by `Index.reread`, and a JSON value is taken for an index by
`Index.ofJson?`.
-/

namespace SpanIndex

inductive Format where
  | csv | tsv | jsonl
deriving DecidableEq, Inhabited

namespace Format

def name : Format → String
  | .csv => "csv"
  | .tsv => "tsv"
  | .jsonl => "jsonl"

/-- The names that a user may write. -/
def choices : List (String × Format) :=
  [("csv", .csv), ("tsv", .tsv), ("jsonl", .jsonl), ("json-lines", .jsonl)]

/-- Reads the name that a user wrote. -/
def ofName (text : List Char) : Except (List Char) Format := Text.choose choices text

/-- What is said of a name that is not known. -/
def unknownMessage (name : List Char) : List Char :=
  "unknown output format `".toList ++ name ++ "` (expected csv, tsv or jsonl)".toList

end Format

/-! ## JSON values -/

def Record.toJson (r : Record) : Json :=
  .record ([("kind", .text r.kind.label), ("start_line", .nat r.startLine.toNat),
    ("end_line", .nat r.endLine.toNat)] ++ match r.name with
      | some name => [("name", .string name)]
      | none => [])

/-- The object of the first line. -/
def packageJson (package : List Char) : Json := .record [("package", .string package)]

def Index.toJson (i : Index) : Json :=
  .record [("package", .string i.package), ("declarations", .array (i.declarations.map (·.toJson)))]

/-- A kind is its label, or an object whose only member has the label as its name and no value. -/
def Kind.ofJson? : Json → Option Kind
  | .string label => Kind.ofLabel? label
  | .object [(label, .null)] => Kind.ofLabel? label
  | _ => none

/-- A name that may be left out, or be null. -/
def nameOfJson? : Option Json → Option (Option (List Char))
  | none | some .null => some none
  | some (.string name) => some (some name)
  | some _ => none

/-- Makes a record of its four parts. -/
def Record.ofParts? (kind startLine endLine : Json) (name : Option Json) : Option Record := do
  return ⟨← Kind.ofJson? kind, ← startLine.line?, ← endLine.line?, ← nameOfJson? name⟩

/-- A record is an object with a member for each field, or an array of the fields. -/
def Record.ofJson? : Json → Option Record
  | .array [kind, startLine, endLine] => ofParts? kind startLine endLine none
  | .array [kind, startLine, endLine, name] => ofParts? kind startLine endLine (some name)
  | .object members => do
    let j := Json.object members
    ofParts? (← j.member? "kind") (← j.member? "start_line") (← j.member? "end_line")
      (j.member? "name")
  | _ => none

/-- Makes an index of its two parts. -/
def Index.ofParts? : Json → Json → Option Index
  | .string package, .array records => do return ⟨package, ← records.mapM Record.ofJson?⟩
  | _, _ => none

/-- An index is an object with a member for each field, or an array of the fields. -/
def Index.ofJson? : Json → Option Index
  | .array [package, records] => ofParts? package records
  | .object members => do
    let j := Json.object members
    ofParts? (← j.member? "package") (← j.member? "declarations")
  | _ => none

/-! ## Lines -/

/-- A record with a delimiter between its fields. -/
def Record.delimited (delimiter : Char) (r : Record) : List Char :=
  r.kind.label.toList ++ delimiter :: Text.decimal r.startLine.toNat
    ++ delimiter :: Text.decimal r.endLine.toNat ++ delimiter :: r.nameOrEmpty

namespace Format

/-- The line of a record. -/
def recordLine : Format → Record → List Char
  | .csv, r => r.delimited ','
  | .tsv, r => r.delimited '\t'
  | .jsonl, r => r.toJson.write

/-- The line of the package. -/
def headerLine : Format → List Char → List Char
  | .csv, package | .tsv, package => package
  | .jsonl, package => (packageJson package).write

/-- Ends every line with a newline. -/
def unlines (lines : List (List Char)) : List Char := lines.flatMap (· ++ ['\n'])

/-- The text of a package and some records. -/
def renderRecords (f : Format) (package : List Char) (records : List Record) : List Char :=
  unlines (f.headerLine package :: records.map f.recordLine)

/-- The text of an index. -/
def render (f : Format) (i : Index) : List Char := f.renderRecords i.package i.declarations

/-- The text of the declaration at a line. -/
def renderAt (f : Format) (i : Index) (line : UInt32) : List Char :=
  f.renderRecords i.package (i.declarationAt line).toList

end Format

/-! ## Reading again -/

/-- The text after the first newline. -/
def afterHeader (text : List Char) : List Char := (text.dropWhile (· != '\n')).drop 1

/-- Cuts a text after every newline. -/
def cutLines : List Char → List (List Char)
  | [] => []
  | c :: cs =>
    if c = '\n' then [c] :: cutLines cs
    else match cutLines cs with
      | [] => [[c]]
      | line :: lines => (c :: line) :: lines

/-- Reads the records from the lines of a text. -/
def readRecords : List (List Char) → Except LineError (List Record)
  | [] => .ok []
  | line :: lines => match Record.ofLine line with
    | .error e => .error ⟨line, e⟩
    | .ok r => match readRecords lines with
      | .error e => .error e
      | .ok rs => .ok (r :: rs)

/-- Replaces the declarations by those that the index's own text gives. -/
def Index.reread (i : Index) : Except LineError Index :=
  match readRecords (cutLines (afterHeader (Format.csv.render i))) with
  | .error e => .error e
  | .ok rs => .ok { i with declarations := rs }

end SpanIndex
