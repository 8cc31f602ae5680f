/-!
# Decimal numbers

Numbers that a user writes are read by `readNat`: an optional `+`, then digits. What makes a text
unreadable is told apart, since the reason is reported.
-/

namespace SpanIndex.Text

/-- Why a text is not a number. -/
inductive NumberError where
  | empty
  | invalidDigit
  | tooLarge
deriving DecidableEq, Inhabited

def NumberError.message : NumberError → String
  | .empty => "cannot parse integer from empty string"
  | .invalidDigit => "invalid digit found in string"
  | .tooLarge => "number too large to fit in target type"

/-- The value of a decimal digit. -/
def digitValue (c : Char) : Nat := c.toNat - '0'.toNat

/-- Reads digits after those that stand for `value`. Reading stops at the first character that is no
digit, or with the first digit that makes the number larger than `limit`. -/
def readDigits (limit : Nat) : Nat → List Char → Except NumberError Nat
  | value, [] => .ok value
  | value, c :: cs =>
    if c.isDigit then
      let value := 10 * value + digitValue c
      if value ≤ limit then readDigits limit value cs else .error .tooLarge
    else .error .invalidDigit

/-- Reads a number of at most `limit`. -/
def readNat (limit : Nat) : List Char → Except NumberError Nat
  | [] => .error .empty
  | ['+'] => .error .invalidDigit
  | '+' :: cs => readDigits limit 0 cs
  | cs => readDigits limit 0 cs

/-- The largest number that a line can have. -/
def maxLine : Nat := 4294967295

/-- Reads a line number. -/
def readLine (text : List Char) : Except NumberError UInt32 :=
  (readNat maxLine text).map UInt32.ofNat

/-- The digits of a number. -/
def decimal (n : Nat) : List Char := Nat.toDigits 10 n

end SpanIndex.Text
