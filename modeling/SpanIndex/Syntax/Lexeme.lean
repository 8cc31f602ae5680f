/-!
# The shapes of tokens

Each function returns the length of the longest beginning of a text that has a certain shape, and 0
if there is none. The shapes are those of numbers, characters, escapes and comments in Go.
-/

namespace SpanIndex.Syntax.Lexeme

/-! ## Numbers -/

def isBinary (c : Char) : Bool := c == '0' || c == '1'

def isOctal (c : Char) : Bool := '0' ≤ c && c ≤ '7'

def isDecimal (c : Char) : Bool := c.isDigit

def isHex (c : Char) : Bool := c.isDigit || ('a' ≤ c && c ≤ 'f') || ('A' ≤ c && c ≤ 'F')

/-- Further digits, each of which may have an underscore before it. -/
def moreDigits (digit : Char → Bool) : List Char → Nat
  | [] => 0
  | '_' :: d :: rest => if digit d then moreDigits digit rest + 2 else 0
  | d :: rest => if digit d then moreDigits digit rest + 1 else 0

/-- Digits with single underscores between them. -/
def digits (digit : Char → Bool) : List Char → Nat
  | [] => 0
  | d :: rest => if digit d then moreDigits digit rest + 1 else 0

/-- Adds the length of what stands before a part, if the part is there. -/
def plus (before part : Nat) : Nat := if part == 0 then 0 else before + part

/-- Digits that may have an underscore before them. -/
def markedDigits (digit : Char → Bool) : List Char → Nat
  | '_' :: rest => plus 1 (digits digit rest)
  | text => digits digit text

/-- A zero, a letter and digits. -/
def radixDigits (lower upper : Char) (digit : Char → Bool) : List Char → Nat
  | '0' :: x :: rest => if x == lower || x == upper then plus 2 (markedDigits digit rest) else 0
  | _ => 0

/-- Digits without a leading zero, or a zero alone. -/
def plainDecimal : List Char → Nat
  | '0' :: _ => 1
  | text => digits isDecimal text

/-- A zero and octal digits. -/
def leadingZeroOctal : List Char → Nat
  | '0' :: rest => plus 1 (markedDigits isOctal rest)
  | _ => 0

/-- Integers in base 2, 8, 10 or 16. -/
def int (text : List Char) : Nat :=
  max (max (radixDigits 'b' 'B' isBinary text) (plainDecimal text))
    (max (max (leadingZeroOctal text) (radixDigits 'o' 'O' isOctal text))
      (radixDigits 'x' 'X' isHex text))

/-- A letter, a sign that may be left out, and decimal digits. -/
def exponent (lower upper : Char) : List Char → Nat
  | x :: rest =>
    if x == lower || x == upper then
      match rest with
      | '+' :: more => plus 2 (digits isDecimal more)
      | '-' :: more => plus 2 (digits isDecimal more)
      | more => plus 1 (digits isDecimal more)
    else 0
  | [] => 0

/-- Decimal digits with a point or an exponent. -/
def decimalFloat (text : List Char) : Nat :=
  let whole := digits isDecimal text
  match text.drop whole with
  | '.' :: rest =>
    let fraction := digits isDecimal rest
    if whole == 0 && fraction == 0 then 0
    else whole + 1 + fraction + exponent 'e' 'E' (rest.drop fraction)
  | rest => if whole == 0 then 0 else plus whole (exponent 'e' 'E' rest)

/-- Hexadecimal digits with an exponent. -/
def hexFloat : List Char → Nat
  | '0' :: x :: text =>
    if x == 'x' || x == 'X' then
      let whole := markedDigits isHex text
      match text.drop whole with
      | '.' :: rest =>
        let fraction := digits isHex rest
        if whole == 0 && fraction == 0 then 0
        else plus (2 + whole + 1 + fraction) (exponent 'p' 'P' (rest.drop fraction))
      | rest => if whole == 0 then 0 else plus (2 + whole) (exponent 'p' 'P' rest)
    else 0
  | _ => 0

def float (text : List Char) : Nat := max (decimalFloat text) (hexFloat text)

/-- A number followed by `i`. Leading zeros are decimal here. -/
def imaginary (text : List Char) : Nat :=
  [digits isDecimal text, int text, decimalFloat text, hexFloat text].foldl (fun best n =>
    if n != 0 && (text.drop n).head? == some 'i' then max best (n + 1) else best) 0

/-! ## Characters and escapes -/

/-- Whether a text begins with at least `n` hexadecimal digits. -/
def hasHex (n : Nat) (text : List Char) : Bool :=
  (text.take n).length == n && (text.take n).all isHex

/-- What may follow the backslash in a character literal. -/
def runeEscape : List Char → Nat
  | 'x' :: rest => if hasHex 2 rest then 3 else 0
  | 'u' :: rest => if hasHex 4 rest then 5 else 0
  | 'U' :: rest => if hasHex 8 rest then 9 else 0
  | c :: rest =>
    if isOctal c then
      if (rest.take 2).length == 2 && (rest.take 2).all isOctal then 3 else 0
    else if "abfnrtv\\'\"".toList.contains c then 1
    else 0
  | [] => 0

/-- A character between single quotes. -/
def rune : List Char → Nat
  | '\'' :: '\\' :: rest =>
    let escape := runeEscape rest
    if escape != 0 && (rest.drop escape).head? == some '\'' then escape + 3 else 0
  | '\'' :: c :: '\'' :: _ => if c == '\'' then 0 else 3
  | _ => 0

/-- A backslash and what it stands before in a string. -/
def stringEscape : List Char → Nat
  | '\\' :: 'x' :: rest => if hasHex 2 rest then (rest.takeWhile isHex).length + 2 else 0
  | '\\' :: 'u' :: rest => if hasHex 4 rest then 6 else 0
  | '\\' :: 'U' :: rest => if hasHex 8 rest then 10 else 0
  | '\\' :: c :: rest =>
    if isDecimal c then ((c :: rest).take 3 |>.takeWhile isDecimal).length + 1 else 2
  | _ => 0

/-! ## Comments -/

/-- The length of a text up to and including the first `*/`; 0 if there is none. -/
def toCommentEnd : List Char → Nat
  | [] => 0
  | '*' :: '/' :: _ => 2
  | _ :: rest => plus 1 (toCommentEnd rest)

/-- A comment to the end of the line, or one between `/*` and `*/`. -/
def comment : List Char → Nat
  | '/' :: '/' :: rest => (rest.takeWhile (· != '\n')).length + 2
  | '/' :: '*' :: rest => plus 2 (toCommentEnd rest)
  | _ => 0

end SpanIndex.Syntax.Lexeme
