import SpanIndex.Text.Shown
import SpanIndex.Text.Utf8

/-!
# Quoted texts in messages

Messages show a text between double quotes. A few characters have short escapes; what would not be seen is
written `\u{…}` by its number. A path is shown in the same way, with `\xNN` for each byte that does not
belong to a character; an apostrophe in a path is escaped too.
-/

namespace SpanIndex.Text

/-- A character by its number. -/
def numberEscape (c : Char) : List Char :=
  "\\u\x7b".toList ++ Nat.toDigits 16 c.toNat ++ ['\x7d']

/-- A character inside quotes. -/
def quotedChar (c : Char) : List Char :=
  if c = '\x00' then ['\\', '0']
  else if c = '\t' then ['\\', 't']
  else if c = '\r' then ['\\', 'r']
  else if c = '\n' then ['\\', 'n']
  else if c = '\\' then ['\\', '\\']
  else if c = '"' then ['\\', '"']
  else if isShown c then [c]
  else numberEscape c

/-- A text between quotes. -/
def quoted (text : List Char) : List Char := '"' :: text.flatMap quotedChar ++ ['"']

/-- A byte by its number, in two digits. -/
def byteEscape (b : UInt8) : List Char :=
  ['\\', 'x', (Nat.digitChar (b.toNat / 16)).toUpper, (Nat.digitChar (b.toNat % 16)).toUpper]

/-- A piece of a path inside quotes. -/
def quotedPiece : Piece → List Char
  | .char c => if c = '\x27' then ['\\', '\x27'] else quotedChar c
  | .stray bytes => bytes.flatMap byteEscape

/-- A path between quotes. -/
def quotedPath (path : Bytes) : List Char := '"' :: (pieces path).flatMap quotedPiece ++ ['"']

end SpanIndex.Text
