import SpanIndex.Toml.Scan
import SpanIndex.Toml.Value

/-!
# Numbers and moments in TOML

An underscore may stand between two digits. Integers are those of 64 bits; a number with a fraction or an
exponent is the nearest one of the binary format, but may not be too large for it.
-/

namespace SpanIndex.Toml

/-! ## Digits -/

/-- The digits that follow a first one, without the underscores between them. -/
def moreDigits (isDigit : Char → Bool) : List Char → List Char × List Char
  | '_' :: c :: rest =>
    if isDigit c then
      let (digits, rest) := moreDigits isDigit rest
      (c :: digits, rest)
    else ([], '_' :: c :: rest)
  | c :: rest =>
    if isDigit c then
      let (digits, rest) := moreDigits isDigit rest
      (c :: digits, rest)
    else ([], c :: rest)
  | [] => ([], [])

/-- Reads digits, of which there has to be one at least. -/
def readDigits (isDigit : Char → Bool) : List Char → Option (List Char × List Char)
  | c :: rest =>
    if isDigit c then
      let (digits, rest) := moreDigits isDigit rest
      some (c :: digits, rest)
    else none
  | [] => none

/-- The value of digits in a base. -/
def valueOf (base : Nat) (digits : List Char) : Nat :=
  digits.foldl (fun n c => base * n + (Text.hexValue? c).getD 0) 0

/-! ## Integers and floats -/

/-- An integer of 64 bits. -/
def integer? (n : Int) : Option Toml :=
  if -0x8000000000000000 ≤ n && n < 0x8000000000000000 then some (.integer n) else none

/-- Reads an integer in a base other than ten, after its mark. -/
def readBased (base : Nat) (isDigit : Char → Bool) (text : List Char) : Option (Toml × List Char) :=
  match readDigits isDigit text with
  | none => none
  | some (digits, rest) => (integer? (valueOf base digits)).map (·, rest)

/-- Reads the sign of a number, if there is one. -/
def readSign : List Char → Bool × List Char
  | '-' :: rest => (true, rest)
  | '+' :: rest => (false, rest)
  | text => (false, text)

/-- Reads the part of a number before the point. No zero stands before another digit. -/
def readWhole : List Char → Option (List Char × List Char)
  | '0' :: rest => some (['0'], rest)
  | text => readDigits Char.isDigit text

/-- Reads an exponent after its mark. -/
def readExponent (text : List Char) : Option (Int × List Char) :=
  let (negative, text) := readSign text
  match readDigits Char.isDigit text with
  | none => none
  | some (digits, rest) =>
    let n := Int.ofNat (valueOf 10 digits)
    some (if negative then -n else n, rest)

/-- Whether a character marks an exponent. -/
def isExponentMark (c : Char) : Bool := c == 'e' || c == 'E'

/-- Reads the exponent of a number, if there is one. -/
def readOptionalExponent : List Char → Option (Int × List Char)
  | c :: rest => if isExponentMark c then readExponent rest else some (0, c :: rest)
  | [] => some (0, [])

/-- The float of the digits before and after the point and an exponent. -/
def float? (negative : Bool) (whole fraction : List Char) (exponent : Int) : Option Toml :=
  let x := Binary64.ofDecimal negative (valueOf 10 (whole ++ fraction))
    (exponent - Int.ofNat fraction.length)
  if x = .infinite false then none else some (.float x)

/-- Reads the rest of a number in base ten. -/
def readAfterWhole (negative : Bool) (whole : List Char) : List Char → Option (Toml × List Char)
  | '.' :: rest => match readDigits Char.isDigit rest with
    | none => none
    | some (fraction, rest) => match readOptionalExponent rest with
      | none => none
      | some (exponent, rest) => (float? negative whole fraction exponent).map (·, rest)
  | c :: rest =>
    if isExponentMark c then match readExponent rest with
      | none => none
      | some (exponent, rest) => (float? negative whole [] exponent).map (·, rest)
    else
      let n := Int.ofNat (valueOf 10 whole)
      (integer? (if negative then -n else n)).map (·, c :: rest)
  | [] =>
    let n := Int.ofNat (valueOf 10 whole)
    (integer? (if negative then -n else n)).map (·, [])

def isOctalDigit (c : Char) : Bool := '0' ≤ c && c ≤ '7'
def isBinaryDigit (c : Char) : Bool := c == '0' || c == '1'

/-- Reads a number after its sign. -/
def readUnsigned (negative : Bool) : List Char → Option (Toml × List Char)
  | 'i' :: 'n' :: 'f' :: rest => some (.float (.infinite negative), rest)
  | 'n' :: 'a' :: 'n' :: rest => some (.float .nan, rest)
  | text => match readWhole text with
    | none => none
    | some (whole, rest) => readAfterWhole negative whole rest

/-- Reads a number. -/
def readNumber : List Char → Option (Toml × List Char)
  | '0' :: 'x' :: rest => readBased 16 (fun c => (Text.hexValue? c).isSome) rest
  | '0' :: 'o' :: rest => readBased 8 isOctalDigit rest
  | '0' :: 'b' :: rest => readBased 2 isBinaryDigit rest
  | text =>
    let (negative, text) := readSign text
    readUnsigned negative text

/-! ## Moments -/

/-- Reads a number of exactly `n` digits. -/
def readFixed (n : Nat) (text : List Char) : Option (Nat × List Char) :=
  let digits := text.take n
  if digits.length = n && digits.all Char.isDigit then some (valueOf 10 digits, text.drop n) else none

/-- Reads a number of two digits within bounds. -/
def readPair (low high : Nat) (text : List Char) : Option (Nat × List Char) :=
  match readFixed 2 text with
  | some (n, rest) => if low ≤ n && n ≤ high then some (n, rest) else none
  | none => none

/-- Takes a given character. -/
def take? (c : Char) : List Char → Option (List Char)
  | d :: rest => if d = c then some rest else none
  | [] => none

def isLeapYear (year : Nat) : Bool := year % 4 == 0 && (year % 100 != 0 || year % 400 == 0)

def daysIn (year month : Nat) : Nat :=
  if month == 2 then if isLeapYear year then 29 else 28
  else if month == 4 || month == 6 || month == 9 || month == 11 then 30
  else 31

/-- Takes a date. -/
def skipDate (text : List Char) : Option (List Char) := do
  let (year, text) ← readFixed 4 text
  let text ← take? '-' text
  let (month, text) ← readPair 1 12 text
  let text ← take? '-' text
  let (_, text) ← readPair 1 (daysIn year month) text
  return text

/-- Takes a fraction of a second, if there is one. -/
def skipSecondFraction : List Char → Option (List Char)
  | '.' :: rest =>
    if (rest.takeWhile Char.isDigit).isEmpty then none else some (rest.dropWhile Char.isDigit)
  | text => some text

/-- Takes a time of the day. A minute may have a leap second. -/
def skipTime (text : List Char) : Option (List Char) := do
  let (_, text) ← readPair 0 23 text
  let text ← take? ':' text
  let (_, text) ← readPair 0 59 text
  let text ← take? ':' text
  let (_, text) ← readPair 0 60 text
  skipSecondFraction text

/-- Takes the offset of a time zone, if there is one. -/
def skipOffset : List Char → Option (List Char)
  | c :: rest =>
    if c = 'Z' || c = 'z' then some rest
    else if c = '+' || c = '-' then do
      let (_, text) ← readPair 0 23 rest
      let text ← take? ':' text
      let (_, text) ← readPair 0 59 text
      return text
    else some (c :: rest)
  | [] => some []

/-- Takes the time that follows a date, if there is one. -/
def skipTimeAfterDate : List Char → Option (List Char)
  | c :: rest =>
    if c = 'T' || c = 't' || c = ' ' then match skipTime rest with
      | some rest => skipOffset rest
      | none => some (c :: rest)
    else some (c :: rest)
  | [] => some []

/-- Reads a date, a time or both. -/
def readMoment (text : List Char) : Option (Toml × List Char) := do
  let rest ← match skipDate text with
    | some rest => skipTimeAfterDate rest
    | none => skipTime text
  return (.moment (text.take (text.length - rest.length)), rest)

end SpanIndex.Toml
