import SpanIndex.Json.Value
import SpanIndex.Text.Hex

/-!
# Reading JSON

A text is first cut into tokens, and `Reader.step` then takes them one by one. The reader keeps the arrays
and objects that are open around the next token; how many there may be is limited by `maxDepth`.

A string may hold every character but the quote, the backslash and the control characters below U+0020.
An escape `\u` that names half of a surrogate pair has to be followed by the other half.
-/

namespace SpanIndex.Json

/-! ## Tokens -/

inductive Token where
  | openArray | closeArray | openObject | closeObject | colon | comma
  /-- A value that is no array and no object. -/
  | scalar (v : Json)
deriving Inhabited

/-- White space between tokens. -/
def isSpace (c : Char) : Bool := c == ' ' || c == '\t' || c == '\n' || c == '\r'

/-- Whether a number names the first half of a surrogate pair. -/
def isLeading (n : Nat) : Bool := 0xD800 ≤ n && n < 0xDC00

/-- Whether a number names the second half of a surrogate pair. -/
def isTrailing (n : Nat) : Bool := 0xDC00 ≤ n && n < 0xE000

/-- The character of a surrogate pair. -/
def pairChar (leading trailing : Nat) : Char :=
  Char.ofNat (0x10000 + (leading - 0xD800) * 1024 + (trailing - 0xDC00))

/-- The character that a letter stands for after a backslash. -/
def escaped? (c : Char) : Option Char :=
  if c = '"' || c = '\\' || c = '/' then some c
  else if c = 'b' then some '\x08'
  else if c = 't' then some '\t'
  else if c = 'n' then some '\n'
  else if c = 'f' then some '\x0c'
  else if c = 'r' then some '\r'
  else none

/-- Reads the second half of a surrogate pair, after the first one. -/
def readTrailing (leading : Nat) : List Char → Option (Char × List Char)
  | '\\' :: 'u' :: rest =>
    match Text.readHex 4 0 rest with
    | some (n, rest) => if isTrailing n then some (pairChar leading n, rest) else none
    | none => none
  | _ => none

/-- Reads what follows a backslash. -/
def readEscape : List Char → Option (Char × List Char)
  | 'u' :: rest =>
    match Text.readHex 4 0 rest with
    | some (n, rest) =>
      if isLeading n then readTrailing n rest
      else if isTrailing n then none
      else some (Char.ofNat n, rest)
    | none => none
  | c :: rest => (escaped? c).map (·, rest)
  | [] => none

theorem readTrailing_length {leading : Nat} {text rest : List Char} {c : Char}
    (h : readTrailing leading text = some (c, rest)) : rest.length < text.length := by
  unfold readTrailing at h
  split at h
  · split at h
    · next hu =>
      have := Text.readHex_length hu
      split at h
      · obtain ⟨-, rfl⟩ := Prod.mk.inj (Option.some.inj h)
        simp only [List.length_cons]
        omega
      · simp at h
    · simp at h
  · simp at h

theorem readEscape_length {text rest : List Char} {c : Char}
    (h : readEscape text = some (c, rest)) : rest.length < text.length := by
  unfold readEscape at h
  split at h
  · split at h
    · next hu =>
      have := Text.readHex_length hu
      split at h
      · have := readTrailing_length h
        simp only [List.length_cons]
        omega
      · split at h
        · simp at h
        · obtain ⟨-, rfl⟩ := Prod.mk.inj (Option.some.inj h)
          simp only [List.length_cons]
          omega
    · simp at h
  · obtain ⟨_, _, h⟩ := Option.map_eq_some_iff.1 h
    obtain ⟨-, rfl⟩ := Prod.mk.inj h
    simp
  · simp at h

/-- Reads the rest of a string, up to the quote that closes it. -/
def readString (text : List Char) : Option (List Char × List Char) :=
  match text with
  | [] => none
  | c :: rest =>
    if c = '"' then some ([], rest)
    else if c = '\\' then
      match h : readEscape rest with
      | none => none
      | some (e, rest') =>
        have := readEscape_length h
        (readString rest').map fun s => (e :: s.1, s.2)
    else if c < ' ' then none
    else (readString rest).map fun s => (c :: s.1, s.2)
termination_by text.length
decreasing_by all_goals simp_all; try omega

/-- The digits at the beginning of a text, and what follows them. -/
def splitDigits (text : List Char) : List Char × List Char :=
  (text.takeWhile Char.isDigit, text.dropWhile Char.isDigit)

/-- Reads digits, of which there has to be one at least. -/
def readDigits1 (text : List Char) : Option (List Char × List Char) :=
  match splitDigits text with
  | ([], _) => none
  | parts => some parts

/-- Reads the part of a number before the point. No zero stands before another digit. -/
def readWhole : List Char → Option (List Char × List Char)
  | '0' :: rest => some (['0'], rest)
  | text => readDigits1 text

/-- Reads the fraction of a number, if there is one. -/
def readFraction : List Char → Option (List Char × List Char)
  | '.' :: rest => (readDigits1 rest).map fun p => ('.' :: p.1, p.2)
  | rest => some ([], rest)

/-- Reads the exponent of a number, if there is one. -/
def readExponent : List Char → Option (List Char × List Char)
  | c :: rest =>
    if c = 'e' || c = 'E' then
      match rest with
      | s :: rest' =>
        if s = '+' || s = '-' then (readDigits1 rest').map fun p => (c :: s :: p.1, p.2)
        else (readDigits1 rest).map fun p => (c :: p.1, p.2)
      | [] => none
    else some ([], c :: rest)
  | [] => some ([], [])

/-- Reads a number after its sign. -/
def readUnsigned (text : List Char) : Option (List Char × List Char) := do
  let (whole, text) ← readWhole text
  let (fraction, text) ← readFraction text
  let (exponent, text) ← readExponent text
  return (whole ++ fraction ++ exponent, text)

/-- Reads a number. -/
def readNumber : List Char → Option (List Char × List Char)
  | '-' :: rest => (readUnsigned rest).map fun p => ('-' :: p.1, p.2)
  | text => readUnsigned text

/-- Reads a token that begins with the first character of a text. -/
def readToken : List Char → Option (Token × List Char)
  | '[' :: rest => some (.openArray, rest)
  | ']' :: rest => some (.closeArray, rest)
  | '\x7b' :: rest => some (.openObject, rest)
  | '\x7d' :: rest => some (.closeObject, rest)
  | ':' :: rest => some (.colon, rest)
  | ',' :: rest => some (.comma, rest)
  | '"' :: rest => (readString rest).map fun p => (.scalar (.string p.1), p.2)
  | 'n' :: 'u' :: 'l' :: 'l' :: rest => some (.scalar .null, rest)
  | 't' :: 'r' :: 'u' :: 'e' :: rest => some (.scalar (.bool true), rest)
  | 'f' :: 'a' :: 'l' :: 's' :: 'e' :: rest => some (.scalar (.bool false), rest)
  | text => (readNumber text).map fun p => (.scalar (.number p.1), p.2)

/-- Cuts a text into its tokens; every token takes at least one of the characters that `fuel` counts. -/
def tokensWith : Nat → List Char → Option (List Token)
  | _, [] => some []
  | 0, _ => none
  | fuel + 1, c :: rest =>
    if isSpace c then tokensWith fuel rest
    else do
      let (token, rest) ← readToken (c :: rest)
      let tokens ← tokensWith fuel rest
      return token :: tokens

/-- The tokens of a text. -/
def tokens (text : List Char) : Option (List Token) := tokensWith text.length text

/-! ## Values -/

/-- An array or object that is open. What is complete in it is held in reverse. -/
inductive Open where
  | array (items : List Json)
  | object (members : List (List Char × Json))
  /-- An object, in the value of the member with this name. -/
  | member (members : List (List Char × Json)) (name : List Char)

/-- What may come next. -/
inductive Phase where
  | value
  | itemOrEnd
  | nameOrEnd
  | name
  | colon
  /-- A value is complete. -/
  | after (v : Json)

structure Reader where
  /-- What is open, the innermost first. -/
  around : List Open
  phase : Phase

namespace Reader

/-- One more than the number of arrays and objects that may be open at a time. -/
def maxDepth : Nat := 128

/-- The reader at the beginning of a text. -/
def start : Reader := ⟨[], .value⟩

/-- Opens an array or object. -/
def enter (r : Reader) (o : Open) (phase : Phase) : Option Reader :=
  if r.around.length + 1 < maxDepth then some ⟨o :: r.around, phase⟩ else none

/-- Takes the first token of a value. -/
def beginValue (r : Reader) : Token → Option Reader
  | .scalar v => some ⟨r.around, .after v⟩
  | .openArray => r.enter (.array []) .itemOrEnd
  | .openObject => r.enter (.object []) .nameOrEnd
  | _ => none

/-- Takes the token after a complete value. -/
def separate (v : Json) : List Open → Token → Option Reader
  | .array items :: around, .comma => some ⟨.array (v :: items) :: around, .value⟩
  | .array items :: around, .closeArray => some ⟨around, .after (.array (v :: items).reverse)⟩
  | .member members name :: around, .comma =>
    some ⟨.object ((name, v) :: members) :: around, .name⟩
  | .member members name :: around, .closeObject =>
    some ⟨around, .after (.object ((name, v) :: members).reverse)⟩
  | _, _ => none

/-- Takes the name of a member. -/
def beginMember : List Open → Token → Option Reader
  | .object members :: around, .scalar (.string name) =>
    some ⟨.member members name :: around, .colon⟩
  | _, _ => none

def step (r : Reader) (t : Token) : Option Reader :=
  match r.phase, t with
  | .value, t => r.beginValue t
  | .itemOrEnd, .closeArray => some ⟨r.around.drop 1, .after (.array [])⟩
  | .itemOrEnd, t => r.beginValue t
  | .nameOrEnd, .closeObject => some ⟨r.around.drop 1, .after (.object [])⟩
  | .nameOrEnd, t => beginMember r.around t
  | .name, t => beginMember r.around t
  | .colon, .colon => some ⟨r.around, .value⟩
  | .colon, _ => none
  | .after v, t => separate v r.around t

/-- The value, if the text may end here. -/
def finish? : Reader → Option Json
  | ⟨[], .after v⟩ => some v
  | _ => none

end Reader

/-- Reads a text that holds one value. -/
def read (text : List Char) : Option Json := do
  let tokens ← tokens text
  let reader ← tokens.foldlM Reader.step Reader.start
  reader.finish?

end SpanIndex.Json
