import SpanIndex.Text.Hex

/-!
# Lexical elements of TOML

Blanks and line ends, comments, the four kinds of strings, and keys. Each reader takes the text from where its
element begins and returns what the element stands for and the text after it.
-/

namespace SpanIndex.Toml

/-! ## Blanks, line ends and comments -/

/-- Blanks within a line. -/
def isBlank (c : Char) : Bool := c == ' ' || c == '\t'

def skipBlanks (text : List Char) : List Char := text.dropWhile isBlank

/-- Characters that may stand in strings and comments as they are: all but control characters, of which
the tab is allowed. -/
def isPlain (c : Char) : Bool := c == '\t' || (' ' ≤ c && c != '\x7f')

/-- Takes the end of a line. -/
def lineEnd? : List Char → Option (List Char)
  | '\n' :: rest => some rest
  | '\r' :: '\n' :: rest => some rest
  | _ => none

/-- Takes a comment, if there is one. -/
def skipComment : List Char → List Char
  | '#' :: rest => rest.dropWhile isPlain
  | text => text

/-- Takes what may stand between the last element of a line and the next line. -/
def endOfLine? (text : List Char) : Option (List Char) :=
  match skipComment (skipBlanks text) with
  | [] => some []
  | rest => lineEnd? rest

/-- Takes blanks and line ends. -/
def skipBlankLines : List Char → List Char
  | '\r' :: '\n' :: rest => skipBlankLines rest
  | c :: rest => if isBlank c || c == '\n' then skipBlankLines rest else c :: rest
  | [] => []

theorem skipBlankLines_length_le (text : List Char) :
    (skipBlankLines text).length ≤ text.length := by
  fun_induction skipBlankLines text with
  | case1 rest ih => simp only [List.length_cons]; omega
  | case2 c rest _ h ih => simp only [List.length_cons]; omega
  | case3 => simp
  | case4 => simp

theorem length_of_lineEnd? {text rest : List Char} (h : lineEnd? text = some rest) :
    rest.length < text.length := by
  unfold lineEnd? at h
  split at h
  · simp_all
  · obtain rfl := Option.some.inj h
    simp only [List.length_cons]
    omega
  · simp at h

/-! ## Strings -/

/-- Reads a character given by its number in `n` hexadecimal digits. -/
def readScalar (n : Nat) (text : List Char) : Option (Char × List Char) :=
  match Text.readHex n 0 text with
  | some (v, rest) => if v.isValidChar then some (Char.ofNat v, rest) else none
  | none => none

/-- The character that a letter stands for after a backslash. -/
def escaped? (c : Char) : Option Char :=
  if c = '"' || c = '\\' then some c
  else if c = 'b' then some '\x08'
  else if c = 't' then some '\t'
  else if c = 'n' then some '\n'
  else if c = 'f' then some '\x0c'
  else if c = 'r' then some '\r'
  else none

/-- Reads what follows a backslash. -/
def readEscape : List Char → Option (Char × List Char)
  | [] => none
  | c :: rest =>
    if c = 'u' then readScalar 4 rest
    else if c = 'U' then readScalar 8 rest
    else (escaped? c).map (·, rest)

theorem readScalar_length_le {n : Nat} {text rest : List Char} {c : Char}
    (h : readScalar n text = some (c, rest)) : rest.length ≤ text.length := by
  unfold readScalar at h
  split at h
  · next hx =>
    have := Text.readHex_length hx
    split at h
    · obtain ⟨-, rfl⟩ := Prod.mk.inj (Option.some.inj h)
      omega
    · simp at h
  · simp at h

theorem readEscape_length {text rest : List Char} {c : Char}
    (h : readEscape text = some (c, rest)) : rest.length < text.length := by
  cases text with
  | nil => simp [readEscape] at h
  | cons d ds =>
    rw [readEscape] at h
    split at h
    · have := readScalar_length_le h
      simp only [List.length_cons]
      omega
    · split at h
      · have := readScalar_length_le h
        simp only [List.length_cons]
        omega
      · obtain ⟨_, _, h⟩ := Option.map_eq_some_iff.1 h
        obtain ⟨-, rfl⟩ := Prod.mk.inj h
        simp

/-- Reads the rest of a string between quotes. -/
def readBasic (text : List Char) : Option (List Char × List Char) :=
  match text with
  | [] => none
  | c :: rest =>
    if c = '"' then some ([], rest)
    else if c = '\\' then
      match h : readEscape rest with
      | none => none
      | some (e, rest') =>
        have := readEscape_length h
        (readBasic rest').map fun s => (e :: s.1, s.2)
    else if isPlain c then (readBasic rest).map fun s => (c :: s.1, s.2)
    else none
termination_by text.length
decreasing_by all_goals simp_all; try omega

/-- Reads the rest of a string between apostrophes. -/
def readLiteral (text : List Char) : Option (List Char × List Char) :=
  let inside := fun c => isPlain c && c != '\x27'
  match text.dropWhile inside with
  | '\x27' :: rest => some (text.takeWhile inside, rest)
  | _ => none

/-- Takes the end of a line that directly follows the opening of a string of several lines. -/
def skipFirstLineEnd (text : List Char) : List Char := (lineEnd? text).getD text

/-- What a string of several lines ends with: three delimiters, with up to two more before them that belong
to the string. -/
def closing? (delimiter : Char) : List Char → Option (List Char × List Char)
  | a :: b :: c :: rest =>
    if a = delimiter && b = delimiter && c = delimiter then
      let extra := (rest.takeWhile (· == delimiter)).take 2
      some (extra, rest.drop extra.length)
    else none
  | _ => none

/-- A backslash at the end of a line takes the line end and all blanks and line ends after it. -/
def continuation? (text : List Char) : Option (List Char) :=
  (lineEnd? (skipBlanks text)).map skipBlankLines

theorem length_skipBlanks_le (text : List Char) : (skipBlanks text).length ≤ text.length :=
  (List.dropWhile_sublist _).length_le

theorem length_of_continuation? {text rest : List Char} (h : continuation? text = some rest) :
    rest.length < text.length := by
  obtain ⟨t, ht, rfl⟩ := Option.map_eq_some_iff.1 h
  have h1 := skipBlankLines_length_le t
  have h2 := length_of_lineEnd? ht
  have h3 := length_skipBlanks_le text
  omega

/-- Reads the rest of a string of several lines. Line ends count as newlines; with `escapes`, a
backslash is special. -/
def readLines (delimiter : Char) (escapes : Bool) (text : List Char) :
    Option (List Char × List Char) :=
  match closing? delimiter text with
  | some close => some close
  | none =>
    match text with
    | [] => none
    | c :: rest =>
      if escapes && c == '\\' then
        match h : continuation? rest with
        | some rest' =>
          have := length_of_continuation? h
          readLines delimiter escapes rest'
        | none =>
          match h : readEscape rest with
          | none => none
          | some (e, rest') =>
            have := readEscape_length h
            (readLines delimiter escapes rest').map fun s => (e :: s.1, s.2)
      else
        match h : lineEnd? (c :: rest) with
        | some rest' =>
          have := length_of_lineEnd? h
          (readLines delimiter escapes rest').map fun s => ('\n' :: s.1, s.2)
        | none =>
          if isPlain c then (readLines delimiter escapes rest).map fun s => (c :: s.1, s.2)
          else none
termination_by text.length
decreasing_by all_goals simp_all; try omega

/-- Reads a string of any kind. -/
def readString : List Char → Option (List Char × List Char)
  | '"' :: '"' :: '"' :: rest => readLines '"' true (skipFirstLineEnd rest)
  | '"' :: rest => readBasic rest
  | '\x27' :: '\x27' :: '\x27' :: rest => readLines '\x27' false (skipFirstLineEnd rest)
  | '\x27' :: rest => readLiteral rest
  | _ => none

/-! ## Keys -/

abbrev Key := List Char

/-- Characters of a key without quotes. -/
def isKeyChar (c : Char) : Bool := c.isAlphanum || c == '_' || c == '-'

/-- Reads one part of a key. -/
def readKeyPart : List Char → Option (Key × List Char)
  | '"' :: rest => readBasic rest
  | '\x27' :: rest => readLiteral rest
  | text => match text.takeWhile isKeyChar with
    | [] => none
    | key => some (key, text.dropWhile isKeyChar)

/-- Reads a key of at most `n` parts with dots between them, and the blanks around it. -/
def readKeyParts : Nat → List Char → Option (List Key × List Char)
  | 0, _ => none
  | n + 1, text => match readKeyPart (skipBlanks text) with
    | none => none
    | some (key, rest) => match skipBlanks rest with
      | '.' :: rest => (readKeyParts n rest).map fun k => (key :: k.1, k.2)
      | rest => some ([key], rest)

/-- One more than the number of values that may be open around a value, and of parts that a key may have. -/
def maxDepth : Nat := 80

/-- Reads a key. -/
def readKey (text : List Char) : Option (List Key × List Char) := readKeyParts (maxDepth - 1) text

end SpanIndex.Toml
