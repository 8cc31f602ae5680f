import SpanIndex.Settings.Value
import SpanIndex.Text.Blank
import SpanIndex.Text.Decimal
import SpanIndex.Toml.Scan

/-!
# Settings from the environment

A variable whose name begins with `DECLMAP_` sets the value at a path of keys: the rest of the name, in small
letters, with two underscores or a point between the keys.

The text of a variable is read as a value in a simple notation: `true` and `false`, numbers, `"…"`, one character
between apostrophes, `[value, …]` and `{key = value, …}`. Any other text is a string, and a text that breaks
the rules of the notation stands for itself.
-/

namespace SpanIndex.Settings

/-- The variables of the environment, with their texts. -/
abbrev Environment := List (List Char × List Char)

/-! ## Names -/

/-- What the names of variables with settings begin with. -/
def variablePrefix : List Char := "DECLMAP_".toList

/-- Writes a point for each pair of underscores, from left to right. -/
def joinParts : List Char → List Char
  | '_' :: '_' :: rest => '.' :: joinParts rest
  | c :: rest => c :: joinParts rest
  | [] => []

/-- Cuts a text at every point. -/
def splitParts : List Char → List (List Char)
  | [] => [[]]
  | c :: cs =>
    if c = '.' then [] :: splitParts cs
    else match splitParts cs with
      | [] => [[c]]
      | part :: parts => (c :: part) :: parts

/-- The path of keys that a variable sets. A name with an empty part sets none. -/
def pathOfName? (name : List Char) : Option (List Key) :=
  let start := name.take variablePrefix.length
  if start.map Char.toUpper = variablePrefix then
    let parts := splitParts (joinParts ((name.drop variablePrefix.length).map Char.toLower))
    if parts.any List.isEmpty then none else some parts
  else none

/-! ## Texts -/

/-- White space around values. -/
def isPadding (c : Char) : Bool :=
  c == ' ' || c == '\t' || c == '\n' || c == '\r' || c == '\x0c'

def skipPadding (text : List Char) : List Char := text.dropWhile isPadding

/-- Characters that end a value without quotes. -/
def isSeparator (c : Char) : Bool :=
  c == ',' || c == '\x7b' || c == '\x7d' || c == '[' || c == ']'

/-- Reads an exponent, if there is one, up to the end of the text. -/
def exponent? : List Char → Option Int
  | [] => some 0
  | c :: rest =>
    if c = 'e' || c = 'E' then
      let (negative, digits) := match rest with
        | '-' :: digits => (true, digits)
        | '+' :: digits => (false, digits)
        | digits => (false, digits)
      if !digits.isEmpty && digits.all Char.isDigit then
        let n := Int.ofNat (digits.foldl (fun n c => 10 * n + Text.digitValue c) 0)
        some (if negative then -n else n)
      else none
    else none

/-- A number with a point. There has to be a digit on one side of it. -/
def float? (text : List Char) : Option Binary64 :=
  let (negative, text) := match text with
    | '-' :: rest => (true, rest)
    | '+' :: rest => (false, rest)
    | rest => (false, rest)
  match text.dropWhile Char.isDigit with
  | '.' :: rest =>
    let whole := text.takeWhile Char.isDigit
    let fraction := rest.takeWhile Char.isDigit
    let digits := whole ++ fraction
    if digits.isEmpty then none
    else (exponent? (rest.dropWhile Char.isDigit)).map fun e =>
      Binary64.ofDecimal negative (digits.foldl (fun n c => 10 * n + Text.digitValue c) 0)
        (e - Int.ofNat fraction.length)
  | _ => none

/-- The largest number without sign. -/
def maxUnsigned : Nat := 0xffffffffffffffff

/-- The number below zero that a text with a minus sign stands for. -/
def negative? : List Char → Option Int
  | '-' :: c :: cs => match Text.readDigits 0x8000000000000000 0 (c :: cs) with
    | .ok n => some (-(Int.ofNat n))
    | .error _ => none
  | _ => none

/-- The value of a text without quotes. -/
def bareScalar (text : List Char) : Scalar :=
  match float? text with
  | some x => .float x
  | none => match Text.readNat maxUnsigned text with
    | .ok n => .unsigned n
    | .error _ => match negative? text with
      | some n => .signed n
      | none => .string text

/-- Reads a key of a table. -/
def readTableKey : List Char → Option (Key × List Char)
  | '"' :: rest => Toml.readBasic rest
  | text => match text.takeWhile Toml.isKeyChar with
    | [] => none
    | key => some (key, text.dropWhile Toml.isKeyChar)

mutual

/-- Reads a value and the white space around it. Every call takes a character, or is made by one that does;
`fuel` counts the calls. -/
def readVariable : Nat → List Char → Option (Value × List Char)
  | 0, _ => none
  | fuel + 1, text =>
    let text := skipPadding text
    let result : Option (Value × List Char) := match text with
      | 't' :: 'r' :: 'u' :: 'e' :: rest => some (.scalar .environment (.bool true), rest)
      | 'f' :: 'a' :: 'l' :: 's' :: 'e' :: rest => some (.scalar .environment (.bool false), rest)
      | '\x7b' :: rest =>
        (readVariablePairs fuel [] rest).map fun p => (.table .environment p.1, p.2)
      | '[' :: rest => (readVariableItems fuel rest).map fun p => (.array .environment p.1, p.2)
      | '"' :: rest =>
        (Toml.readBasic rest).map fun p => (.scalar .environment (.string p.1), p.2)
      | '\x27' :: rest => match rest with
        | c :: '\x27' :: rest => some (.scalar .environment (.char c), rest)
        | _ => none
      | text =>
        let inside := fun c => !isSeparator c
        let bare := Text.trim (text.takeWhile inside)
        some (.scalar .environment (bareScalar bare), text.dropWhile inside)
    result.map fun p => (p.1, skipPadding p.2)

/-- Reads the items of an array, up to the bracket that closes it. -/
def readVariableItems : Nat → List Char → Option (List Value × List Char)
  | 0, _ => none
  | _ + 1, ']' :: rest => some ([], rest)
  | fuel + 1, text => match readVariable fuel text with
    | some (v, ',' :: rest) => (readVariableItems fuel rest).map fun p => (v :: p.1, p.2)
    | some (v, ']' :: rest) => some ([v], rest)
    | _ => none

/-- Reads the pairs of a table, up to the brace that closes it. -/
def readVariablePairs : Nat → Entries → List Char → Option (Entries × List Char)
  | 0, _, _ => none
  | _ + 1, entries, '\x7d' :: rest => some (entries, rest)
  | fuel + 1, entries, text => match readTableKey (skipPadding text) with
    | none => none
    | some (key, rest) => match skipPadding rest with
      | '=' :: rest => match readVariable fuel rest with
        | some (v, ',' :: rest) => readVariablePairs fuel (entries.set key v) rest
        | some (v, '\x7d' :: rest) => some (entries.set key v, rest)
        | _ => none
      | _ => none

end

/-- The value that the text of a variable stands for. -/
def valueOfText (text : List Char) : Value :=
  match readVariable (2 * text.length + 2) text with
  | some (v, []) => v
  | _ => .scalar .environment (.string text)

/-! ## The layer -/

/-- A value at a path of keys. -/
def nest (v : Value) : List Key → Value
  | [] => v
  | k :: ks => .table .environment [(k, nest v ks)]

/-- The settings of all variables; a later variable goes on top of an earlier one. -/
def environmentEntries (env : Environment) : Entries :=
  env.foldl (fun entries (name, text) => match pathOfName? name with
    | some (k :: ks) => mergeEntries entries [(k, nest (valueOfText text) ks)]
    | _ => entries) []

end SpanIndex.Settings
