/-!
# Binary floating-point numbers

Numbers with a fraction or an exponent are held in the 64-bit binary format: a mantissa below 2^53 and a power
of two. `ofDecimal` takes the nearest such number, a tie going to the even mantissa; `text` writes the
fewest digits that are nearer to the number than to any other, without an exponent.

All of it is exact arithmetic on fractions `n / d` of natural numbers.
-/

namespace SpanIndex

/-- A number of the binary format. -/
inductive Binary64 where
  /-- The number `± mantissa · 2 ^ exponent`. -/
  | finite (negative : Bool) (mantissa : Nat) (exponent : Int)
  | infinite (negative : Bool)
  | nan
deriving DecidableEq, Inhabited

namespace Binary64

def mantissaLimit : Nat := Nat.pow 2 53
def minExponent : Int := -1074
def maxExponent : Int := 971

/-! ## The nearest number -/

/-- Rounds a fraction to the nearest integer, a half to the even one. -/
def roundEven (n d : Nat) : Nat :=
  let q := n / d
  let twice := 2 * (n % d)
  if twice < d || (twice == d && q % 2 == 0) then q else q + 1

/-- The fraction `(n / d) / 2 ^ e`, rounded. -/
def scaled (n d : Nat) (e : Int) : Nat :=
  match e with
  | .ofNat k => roundEven n (d * Nat.pow 2 k)
  | .negSucc k => roundEven (n * Nat.pow 2 (k + 1)) d

/-- A finite number, or infinity beyond the largest one. -/
def bounded (negative : Bool) (mantissa : Nat) (exponent : Int) : Binary64 :=
  if mantissa == mantissaLimit then
    if maxExponent < exponent + 1 then .infinite negative
    else .finite negative (mantissa / 2) (exponent + 1)
  else if maxExponent < exponent && mantissa != 0 then .infinite negative
  else .finite negative mantissa exponent

/-- The number nearest to the fraction `n / d`. The exponent is the least one for which the mantissa is
small enough; the estimate by logarithms is right or one too small. -/
def ofFraction (negative : Bool) (n d : Nat) : Binary64 :=
  if n == 0 then .finite negative 0 0
  else
    let estimate : Int := Int.ofNat n.log2 - Int.ofNat d.log2 - 53
    let e := max estimate minExponent
    let m := scaled n d e
    if m ≤ mantissaLimit then bounded negative m e
    else bounded negative (scaled n d (e + 1)) (e + 1)

/-- A number with its first digit at a place beyond this one is not in the range of the format. -/
def decimalRange : Int := 400

/-- The number nearest to `digits · 10 ^ exponent`. -/
def ofDecimal (negative : Bool) (digits : Nat) (exponent : Int) : Binary64 :=
  let place := exponent + Int.ofNat (Nat.toDigits 10 digits).length
  if digits == 0 || place < -decimalRange then .finite negative 0 0
  else if decimalRange < place then .infinite negative
  else match exponent with
    | .ofNat k => ofFraction negative (digits * Nat.pow 10 k) 1
    | .negSucc k => ofFraction negative digits (Nat.pow 10 (k + 1))

/-! ## The shortest text -/

/-- A decimal number `digits · 10 ^ exponent`. -/
structure Decimal where
  digits : Nat
  exponent : Int
deriving DecidableEq, Inhabited

/-- The fraction `mantissa · 2 ^ exponent`. -/
def fraction (m : Nat) (e : Int) : Nat × Nat :=
  match e with
  | .ofNat k => (m * Nat.pow 2 k, 1)
  | .negSucc k => (m, Nat.pow 2 (k + 1))

/-- The fraction that a decimal number stands for. -/
def Decimal.fraction (x : Decimal) : Nat × Nat :=
  match x.exponent with
  | .ofNat k => (x.digits * Nat.pow 10 k, 1)
  | .negSucc k => (x.digits, Nat.pow 10 (k + 1))

def fractionLt (a b : Nat × Nat) : Bool := a.1 * b.2 < b.1 * a.2
def fractionLe (a b : Nat × Nat) : Bool := a.1 * b.2 ≤ b.1 * a.2

/-- Whether a decimal number is read as `mantissa · 2 ^ exponent`: it lies between the middles to the two
neighbours, which count for an even mantissa. Numbers are four times as fine here, so that the middles are
whole multiples. -/
def readsBack (m : Nat) (e : Int) (x : Decimal) : Bool :=
  let below := if m == mantissaLimit / 2 && e != minExponent then 4 * m - 1 else 4 * m - 2
  let low := fraction below (e - 2)
  let high := fraction (4 * m + 2) (e - 2)
  if m % 2 == 0 then fractionLe low x.fraction && fractionLe x.fraction high
  else fractionLt low x.fraction && fractionLt x.fraction high

/-- The decimal exponent of the first digit of a fraction that is not zero. -/
def leadingExponent (n d : Nat) : Int :=
  if d ≤ n then Int.ofNat (Nat.toDigits 10 (n / d)).length - 1
  else match (List.range 330).find? fun j => d ≤ n * Nat.pow 10 (j + 1) with
    | some j => -(Int.ofNat (j + 1))
    | none => -330

/-- The largest decimal number with a given last place that is not above a fraction. -/
def floorAt (n d : Nat) (place : Int) : Decimal :=
  match place with
  | .ofNat k => ⟨n / (d * Nat.pow 10 k), place⟩
  | .negSucc k => ⟨n * Nat.pow 10 (k + 1) / d, place⟩

/-- Whether a fraction lies nearer to the upper of two neighbours, or in the middle. -/
def nearerAbove (n d : Nat) (low : Decimal) : Bool :=
  let middle : Decimal := ⟨10 * low.digits + 5, low.exponent - 1⟩
  fractionLe middle.fraction (n, d)

/-- The best decimal number with a given last place. -/
def bestAt (m : Nat) (e : Int) (place : Int) : Option Decimal :=
  let (n, d) := fraction m e
  let low := floorAt n d place
  let high : Decimal := ⟨low.digits + 1, place⟩
  match readsBack m e low, readsBack m e high with
  | true, true => if nearerAbove n d low then some high else some low
  | true, false => some low
  | false, true => some high
  | false, false => none

/-- The shortest decimal number that is read as `mantissa · 2 ^ exponent`. It may be the power of ten above;
otherwise seventeen digits suffice. -/
def shortest (m : Nat) (e : Int) : Decimal :=
  let (n, d) := fraction m e
  let first := leadingExponent n d + 1
  ((List.range 18).findSome? fun k => bestAt m e (first - Int.ofNat k)).getD (floorAt n d (first - 17))

/-- A decimal number without an exponent. -/
def Decimal.text (x : Decimal) : List Char :=
  let digits := Nat.toDigits 10 x.digits
  match x.exponent with
  | .ofNat k => digits ++ List.replicate k '0'
  | .negSucc k =>
    let places := k + 1
    if places < digits.length then
      digits.take (digits.length - places) ++ '.' :: digits.drop (digits.length - places)
    else '0' :: '.' :: List.replicate (places - digits.length) '0' ++ digits

/-- The text of a number. -/
def text : Binary64 → List Char
  | .nan => "NaN".toList
  | .infinite negative => (if negative then ['-'] else []) ++ "inf".toList
  | .finite negative m e =>
    (if negative then ['-'] else []) ++ if m == 0 then ['0'] else (shortest m e).text

end Binary64

end SpanIndex
