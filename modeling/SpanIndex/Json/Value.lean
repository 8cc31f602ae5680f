import SpanIndex.Text.Decimal

/-!
# JSON values and their text

A number is kept as it is written: an integer is told from a number with a fraction or an exponent by
its text alone. The members of an object keep their order.

`Json.write` writes a value without any white space. In a string it escapes the quote, the backslash and
the control characters below U+0020, and nothing else.
-/

namespace SpanIndex

/-- A JSON value. -/
inductive Json where
  | null
  | bool (b : Bool)
  | number (text : List Char)
  | string (text : List Char)
  | array (items : List Json)
  | object (members : List (List Char × Json))
deriving Inhabited

namespace Json

/-! ## Building values -/

/-- A string value. -/
def text (s : String) : Json := .string s.toList

/-- An integer. -/
def nat (n : Nat) : Json := .number (Text.decimal n)

/-- An object, with its members in the given order. -/
def record (members : List (String × Json)) : Json :=
  .object (members.map fun m => (m.1.toList, m.2))

/-! ## Looking into values -/

/-- The member of an object with a given name, the last one if there are several. -/
def member? (name : String) : Json → Option Json
  | .object members => (members.reverse.find? fun m => m.1 == name.toList).map (·.2)
  | _ => none

def string? : Json → Option (List Char)
  | .string s => some s
  | _ => none

def bool? : Json → Option Bool
  | .bool b => some b
  | _ => none

/-- The number of a line: an integer, written without sign, fraction and exponent. -/
def line? : Json → Option UInt32
  | .number (c :: cs) => if c.isDigit then (Text.readLine (c :: cs)).toOption else none
  | _ => none

/-! ## Writing -/

/-- A control character is written by its number, in four hexadecimal digits. -/
def controlEscape (c : Char) : List Char :=
  ['\\', 'u', '0', '0', Nat.digitChar (c.toNat / 16), Nat.digitChar (c.toNat % 16)]

/-- How a character is written inside a string. -/
def escape (c : Char) : List Char :=
  if c = '"' then ['\\', '"']
  else if c = '\\' then ['\\', '\\']
  else if c = '\x08' then ['\\', 'b']
  else if c = '\t' then ['\\', 't']
  else if c = '\n' then ['\\', 'n']
  else if c = '\x0c' then ['\\', 'f']
  else if c = '\r' then ['\\', 'r']
  else if c < ' ' then controlEscape c
  else [c]

/-- A string between quotes. -/
def quote (s : List Char) : List Char := '"' :: s.flatMap escape ++ ['"']

mutual

/-- The text of a value. -/
def write : Json → List Char
  | .null => "null".toList
  | .bool true => "true".toList
  | .bool false => "false".toList
  | .number t => t
  | .string s => quote s
  | .array [] => "[]".toList
  | .array (v :: vs) => '[' :: write v ++ writeItems vs ++ [']']
  | .object [] => "\x7b\x7d".toList
  | .object ((k, v) :: ms) => '\x7b' :: quote k ++ ':' :: write v ++ writeMembers ms ++ ['\x7d']

/-- The items of an array after the first. -/
def writeItems : List Json → List Char
  | [] => []
  | v :: vs => ',' :: write v ++ writeItems vs

/-- The members of an object after the first. -/
def writeMembers : List (List Char × Json) → List Char
  | [] => []
  | (k, v) :: ms => ',' :: quote k ++ ':' :: write v ++ writeMembers ms

end

end Json

end SpanIndex
