/-!
# UTF-8

A sequence of bytes is cut into characters and stretches that stand for none. Such a stretch is as long as
the bytes could still be the beginning of a character, and at least one byte. Whoever needs text either
insists that there is none (`decode?`) or shows each as U+FFFD (`decodeLossy`).
-/

namespace SpanIndex.Text

abbrev Bytes := List UInt8

/-- A piece of a sequence of bytes. -/
inductive Piece where
  | char (c : Char)
  | stray (bytes : Bytes)
deriving DecidableEq, Inhabited

/-- What may follow the first byte of a character: the range of the next byte, and how many there are. -/
structure Tail where
  low : UInt8
  high : UInt8
  count : Nat

/-- What has to follow a byte that begins a character of more than one byte. -/
def tailOf? (b : UInt8) : Option Tail :=
  if 0xC2 ≤ b && b ≤ 0xDF then some ⟨0x80, 0xBF, 1⟩
  else if b == 0xE0 then some ⟨0xA0, 0xBF, 2⟩
  else if b == 0xED then some ⟨0x80, 0x9F, 2⟩
  else if 0xE1 ≤ b && b ≤ 0xEF then some ⟨0x80, 0xBF, 2⟩
  else if b == 0xF0 then some ⟨0x90, 0xBF, 3⟩
  else if 0xF1 ≤ b && b ≤ 0xF3 then some ⟨0x80, 0xBF, 3⟩
  else if b == 0xF4 then some ⟨0x80, 0x8F, 3⟩
  else none

/-- The bytes at the beginning that fit a tail. -/
def fitting : UInt8 → UInt8 → Nat → Bytes → Bytes
  | _, _, 0, _ => []
  | _, _, _ + 1, [] => []
  | low, high, n + 1, b :: bs =>
    if low ≤ b && b ≤ high then b :: fitting 0x80 0xBF n bs else []

/-- The bits that the first byte of a character of `n + 1` bytes contributes. -/
def leadingBits (b : UInt8) : Nat → Nat
  | 1 => b.toNat % 32
  | 2 => b.toNat % 16
  | _ => b.toNat % 8

/-- The character of a first byte and its tail. -/
def assemble (b : UInt8) (tail : Bytes) : Char :=
  Char.ofNat (tail.foldl (fun n b => 64 * n + b.toNat % 64) (leadingBits b tail.length))

/-- Cuts a sequence of bytes into pieces. -/
def pieces (bytes : Bytes) : List Piece :=
  match bytes with
  | [] => []
  | b :: bs =>
    if b < 0x80 then .char (Char.ofNat b.toNat) :: pieces bs
    else match tailOf? b with
      | none => .stray [b] :: pieces bs
      | some t =>
        let tail := fitting t.low t.high t.count bs
        let piece := if tail.length = t.count then .char (assemble b tail) else .stray (b :: tail)
        piece :: pieces (bs.drop tail.length)
termination_by bytes.length
decreasing_by all_goals simp; try omega

def Piece.char? : Piece → Option Char
  | .char c => some c
  | .stray _ => none

/-- The text of a sequence of bytes, if all of them belong to characters. -/
def decode? (bytes : Bytes) : Option (List Char) := (pieces bytes).mapM Piece.char?

/-- The text of a sequence of bytes, with U+FFFD for what is not a character. -/
def decodeLossy (bytes : Bytes) : List Char :=
  (pieces bytes).map fun p => p.char?.getD '�'

/-- The bytes of a text. -/
def encode (text : List Char) : Bytes := text.flatMap String.utf8EncodeChar

end SpanIndex.Text
