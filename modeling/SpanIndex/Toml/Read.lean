import SpanIndex.Toml.Number
import SpanIndex.Toml.Table

/-!
# Reading TOML

A document is read line by line. A header names the table that the pairs after it go to; each pair is a key and a
value. Arrays and inline tables can hold further values; how deep is limited by `maxDepth`.

The readers of values call each other; `fuel` counts down with every call. Each call takes a character, or
is made by one that does, so twice the length of the text is enough.
-/

namespace SpanIndex.Toml

/-! ## Values -/

/-- Takes the blanks, line ends and comments between the items of an array. -/
def skipBetweenItems : Nat → List Char → List Char
  | 0, text => text
  | fuel + 1, text => match skipBlanks text with
    | '#' :: rest => match lineEnd? (rest.dropWhile isPlain) with
      | some rest => skipBetweenItems fuel rest
      | none => '#' :: rest
    | rest => match lineEnd? rest with
      | some rest => skipBetweenItems fuel rest
      | none => rest

/-- Divides a key into the names of tables and the name of the value. -/
def splitKey (key : List Key) : List Key × Key := (key.dropLast, key.getLastD [])

mutual

/-- Reads a value. -/
def readValue : Nat → Nat → List Char → Option (Toml × List Char)
  | 0, _, _ => none
  | fuel + 1, depth, text => match text with
    | 't' :: 'r' :: 'u' :: 'e' :: rest => some (.boolean true, rest)
    | 'f' :: 'a' :: 'l' :: 's' :: 'e' :: rest => some (.boolean false, rest)
    | '[' :: rest =>
      if depth + 1 < maxDepth then
        (readItems fuel (depth + 1) rest).map fun p => (.array p.1, p.2)
      else none
    | '\x7b' :: rest =>
      if depth + 1 < maxDepth then
        match skipBlanks rest with
        | '\x7d' :: rest => some (.table [], rest)
        | rest => match readPairs fuel (depth + 1) rest with
          | some (pairs, rest) => (tableOfPairs pairs).map (·, rest)
          | none => none
      else none
    | '"' :: _ | '\x27' :: _ => (readString text).map fun p => (.string p.1, p.2)
    | _ => match readMoment text with
      | some result => some result
      | none => readNumber text

/-- Reads the items of an array, up to the bracket that closes it. -/
def readItems : Nat → Nat → List Char → Option (List Toml × List Char)
  | 0, _, _ => none
  | fuel + 1, depth, text => match skipBetweenItems text.length text with
    | ']' :: rest => some ([], rest)
    | text => match readValue fuel depth text with
      | none => none
      | some (v, text) => match skipBetweenItems text.length text with
        | ',' :: rest => (readItems fuel depth rest).map fun p => (v :: p.1, p.2)
        | ']' :: rest => some ([v], rest)
        | _ => none

/-- Reads the pairs of an inline table, up to the brace that closes it. -/
def readPairs : Nat → Nat → List Char → Option (List (List Key × Key × Toml) × List Char)
  | 0, _, _ => none
  | fuel + 1, depth, text => match readKey text with
    | some (key, '=' :: text) => match readValue fuel depth (skipBlanks text) with
      | none => none
      | some (v, text) =>
        let (path, name) := splitKey key
        match skipBlanks text with
        | ',' :: rest => (readPairs fuel depth rest).map fun p => ((path, name, v) :: p.1, p.2)
        | '\x7d' :: rest => some ([(path, name, v)], rest)
        | _ => none
    | _ => none

end

/-! ## Documents -/

/-- A document, as far as it has been read. -/
structure Document where
  root : Entries
  /-- The names of the table that the next pair goes to. -/
  current : List Key

/-- Reads the rest of a line that opens a table. -/
def readHeader (d : Document) (text : List Char) : Option (Document × List Char) :=
  match text with
  | '[' :: text => match readKey text with
    | some (path, ']' :: ']' :: rest) => do
      return (⟨← d.root.openElement path, path⟩, ← endOfLine? rest)
    | _ => none
  | text => match readKey text with
    | some (path, ']' :: rest) => do return (⟨← d.root.openTable path, path⟩, ← endOfLine? rest)
    | _ => none

/-- Reads a line with a pair. -/
def readPairLine (d : Document) (text : List Char) : Option (Document × List Char) :=
  match readKey text with
  | some (key, '=' :: text) =>
    match readValue (2 * text.length + 2) 0 (skipBlanks text) with
    | some (v, rest) => do
      let (path, name) := splitKey key
      let root ← d.root.modifyAt (Entries.insert name v path) d.current
      return ({ d with root := root }, ← endOfLine? rest)
    | none => none
  | _ => none

/-- Reads lines; `fuel` counts them. -/
def readLinesOf : Nat → Document → List Char → Option Document
  | 0, _, _ => none
  | fuel + 1, d, text => match skipBlanks text with
    | [] => some d
    | '[' :: rest => match readHeader d rest with
      | some (d, rest) => readLinesOf fuel d rest
      | none => none
    | '#' :: rest => match endOfLine? ('#' :: rest) with
      | some rest => readLinesOf fuel d rest
      | none => none
    | text => match lineEnd? text with
      | some rest => readLinesOf fuel d rest
      | none => match readPairLine d text with
        | some (d, rest) => readLinesOf fuel d rest
        | none => none

/-- A byte order mark at the beginning does not count. -/
def skipMark : List Char → List Char
  | '\uFEFF' :: rest => rest
  | text => text

/-- Reads a document; it is a table. -/
def read (text : List Char) : Option (List (Key × Toml)) :=
  (readLinesOf (text.length + 1) ⟨[], []⟩ (skipMark text)).map fun d => entriesToml d.root

end SpanIndex.Toml
