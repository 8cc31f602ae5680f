import SpanIndex.Declaration.Kind
import SpanIndex.Text.Blank
import SpanIndex.Text.Decimal

/-!
# Declaration records

A `Record` says where a top-level declaration is: its kind, its first and last line, and its name if it
has one. As a line of text it is written with commas between the fields, `kind,start,end,name`. Nothing
is escaped, so only the first three commas count when such a line is read.
-/

namespace SpanIndex

/-- A top-level declaration and the lines it covers, counted from 1. -/
structure Record where
  kind : Kind
  startLine : UInt32
  endLine : UInt32
  name : Option (List Char)
deriving DecidableEq, Inhabited

namespace Record

/-- The name, as written between delimiters. -/
def nameOrEmpty (r : Record) : List Char := r.name.getD []

/-- Whether the declaration covers a line. -/
def contains (r : Record) (line : UInt32) : Bool := r.startLine ≤ line && line ≤ r.endLine

/-! ## Reading a line -/

/-- Why a line is not a record. -/
inductive Error where
  | tooFewFields
  | unknownKind (text : List Char)
  | startLine (e : Text.NumberError)
  | endLine (e : Text.NumberError)
  | reversed (startLine endLine : UInt32)
deriving DecidableEq, Inhabited

def Error.reason : Error → List Char
  | .tooFewFields => "expected at least three fields".toList
  | .unknownKind text => Kind.unknownMessage text
  | .startLine e => "start line: ".toList ++ e.message.toList
  | .endLine e => "end line: ".toList ++ e.message.toList
  | .reversed s e =>
    "start line ".toList ++ Text.decimal s.toNat ++ " is after end line ".toList
      ++ Text.decimal e.toNat

/-- What is said of a line that is not a record. -/
def Error.message (line : List Char) (e : Error) : List Char :=
  "Invalid declaration record `".toList ++ line ++ "`: ".toList ++ e.reason

/-- Splits a text at the first `n` occurrences of a delimiter. -/
def splitFirst (delimiter : Char) : Nat → List Char → List (List Char)
  | 0, text => [text]
  | n + 1, text =>
    match text.dropWhile (· != delimiter) with
    | [] => [text]
    | _ :: rest => text.takeWhile (· != delimiter) :: splitFirst delimiter n rest

/-- Line ends are no part of the last field. -/
def isLineEnd (c : Char) : Bool := c == '\r' || c == '\n'

/-- The name in the fields after the end line; an empty field is no name. -/
def nameOfFields : List (List Char) → Option (List Char)
  | [] | [] :: _ => none
  | name :: _ => some name

/-- Makes a record of the fields of a line. -/
def ofFields : List (List Char) → Except Error Record
  | kindText :: startText :: endText :: nameText =>
    match Kind.ofLabel? kindText with
    | none => .error (.unknownKind kindText)
    | some kind =>
      match Text.readLine (Text.trim startText) with
      | .error e => .error (.startLine e)
      | .ok startLine =>
        match Text.readLine (Text.trim endText) with
        | .error e => .error (.endLine e)
        | .ok endLine =>
          if endLine < startLine then .error (.reversed startLine endLine)
          else .ok ⟨kind, startLine, endLine, nameOfFields nameText⟩
  | _ => .error .tooFewFields

/-- Reads a record from a line with commas. -/
def ofLine (line : List Char) : Except Error Record :=
  ofFields (splitFirst ',' 3 (Text.dropEndWhile isLineEnd line))

end Record

/-- A line that is not a record, and why. -/
structure LineError where
  line : List Char
  cause : Record.Error
deriving DecidableEq, Inhabited

def LineError.message (e : LineError) : List Char := e.cause.message e.line

/-- Reads a record, and keeps a line that is none as it was given. -/
def Record.read (line : List Char) : Except LineError Record :=
  (Record.ofLine line).mapError (LineError.mk line)

end SpanIndex
