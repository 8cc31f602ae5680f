/-!
# Hexadecimal digits
-/

namespace SpanIndex.Text

/-- The value of a hexadecimal digit. -/
def hexValue? (c : Char) : Option Nat :=
  if c.isDigit then some (c.toNat - '0'.toNat)
  else if 'a' ≤ c && c ≤ 'f' then some (c.toNat - 'a'.toNat + 10)
  else if 'A' ≤ c && c ≤ 'F' then some (c.toNat - 'A'.toNat + 10)
  else none

/-- Reads a number of exactly `n` hexadecimal digits, after those that stand for `value`. -/
def readHex : Nat → Nat → List Char → Option (Nat × List Char)
  | 0, value, text => some (value, text)
  | _ + 1, _, [] => none
  | n + 1, value, c :: cs => match hexValue? c with
    | some d => readHex n (16 * value + d) cs
    | none => none

theorem readHex_length {n v m : Nat} {text rest : List Char}
    (h : readHex n v text = some (m, rest)) : rest.length + n = text.length := by
  induction n generalizing v text with
  | zero =>
    obtain ⟨-, rfl⟩ := Prod.mk.inj (Option.some.inj h)
    simp
  | succ n ih =>
    cases text with
    | nil => simp [readHex] at h
    | cons c cs =>
      rw [readHex] at h
      split at h
      · have := ih h
        simp only [List.length_cons]
        omega
      · simp at h

end SpanIndex.Text
