/-!
# Places in a text

A `Place` is a position between two characters of a text together with the text that follows it.
Positions are counted in characters, in bytes of UTF-8 and in lines; only `\n` starts a new line.
-/

namespace SpanIndex.Syntax

/-- A position in a text and what follows it. -/
structure Place where
  /-- Characters before the place. -/
  index : Nat
  /-- Bytes before the place. -/
  offset : Nat
  /-- Line breaks before the place. -/
  row : Nat
  rest : List Char
deriving Inhabited

namespace Place

/-- The beginning of a text. -/
def start (text : List Char) : Place := ⟨0, 0, 0, text⟩

/-- The place after the character `c`, where `rest` follows. -/
def after (p : Place) (c : Char) (rest : List Char) : Place :=
  ⟨p.index + 1, p.offset + c.utf8Size, if c == '\n' then p.row + 1 else p.row, rest⟩

/-- The place `n` characters further on, or the end of the text if that comes first. -/
def advance (p : Place) : Nat → Place
  | 0 => p
  | n + 1 => match p.rest with
    | [] => p
    | c :: rest => (p.after c rest).advance n

/-- The text between two places. -/
def textTo (p q : Place) : List Char := p.rest.take (q.index - p.index)

/-- The place after the longest run of characters that satisfy `skip`. -/
def skipWhile (skip : Char → Bool) (p : Place) : Place :=
  p.advance (p.rest.takeWhile skip).length

end Place

end SpanIndex.Syntax
