import SpanIndex.Syntax.Lexeme
import SpanIndex.Syntax.Mode
import SpanIndex.Syntax.Place
import SpanIndex.Text.Blank
import SpanIndex.Text.Identifier

/-!
# Tokens in a text

Which token stands at a place depends on the mode in which it is read. A line break is a token only
where a declaration or statement may end, and white space elsewhere; of several operators that are
looked for, the longest is taken; a word is a keyword only if that keyword is expected, or reserved
where an identifier is expected.
-/

namespace SpanIndex.Syntax

open Text

/-- What stands at a place: a token or the end of the input, and where it begins and ends. -/
structure Token where
  /-- None if nothing that is looked for stands here. -/
  found : Option Lookahead
  start : Place
  stop : Place
deriving Inhabited

namespace Token

/-- The parts of a string literal, which follow each other without white space. -/
def insideString (e : Expectation) (text : List Char) : Option (Terminal × Nat) :=
  match text with
  | [] => none
  | c :: _ =>
    if e.has .stringContent && c != '"' && c != '\n' && c != '\\' then
      some (.stringContent,
        (text.takeWhile fun d => d != '"' && d != '\n' && d != '\\').length)
    else if e.has .closingQuote && c == '"' then some (.closingQuote, 1)
    else if e.has .escapeSequence && Lexeme.stringEscape text != 0 then
      some (.escapeSequence, Lexeme.stringEscape text)
    else none

/-- The longer of two candidates, the first if they are equally long. Length 0 is no candidate. -/
def longer (best : Option (Terminal × Nat)) (t : Terminal) (length : Nat) :
    Option (Terminal × Nat) :=
  match best with
  | none => if length == 0 then none else some (t, length)
  | some (s, n) => if n < length then some (t, length) else some (s, n)

/-- The length of the word at the beginning of a text, if words are looked for. -/
def wordLength (e : Expectation) : List Char → Nat
  | [] => 0
  | c :: rest =>
    if isIdentifierStart c && e.has .identifier then (rest.takeWhile isIdentifierPart).length + 1
    else 0

/-- The longest token at the beginning of a text that is looked for. -/
def longest (e : Expectation) (text : List Char) : Option (Terminal × Nat) :=
  let best := longer none .identifier (wordLength e text)
  let best := match Terminal.punctuation.find? fun (spelling, t) =>
      e.has t && spelling.isPrefixOf text with
    | some (spelling, t) => longer best t spelling.length
    | none => best
  let best := longer best .comment (Lexeme.comment text)
  let number := fun best t length => if e.has t then longer best t length else best
  let best := number best .intLiteral (Lexeme.int text)
  let best := number best .floatLiteral (Lexeme.float text)
  let best := number best .imaginaryLiteral (Lexeme.imaginary text)
  let best := number best .runeLiteral (Lexeme.rune text)
  number best .nul (if text.head? == some '\x00' then 1 else 0)

/-- White space at a place; a line break only if none is looked for. A byte order mark at the very
beginning of the text is white space too. -/
def skipSpace (e : Expectation) (p : Place) : Place :=
  let space := fun c => isSpace c && !(c == '\n' && e.has .newline)
  let p := p.skipWhile space
  if p.index == 0 && p.rest.head? == some '\ufeff' then (p.advance 1).skipWhile space else p

/-- The token at a place. In a mode that does not see the end of the input, a NUL of no width is read
there, so that the end ends a statement. -/
def scan (m : Mode) (p : Place) : Token :=
  let e := m.sought
  match insideString e p.rest with
  | some (t, n) => ⟨some (some t), p, p.advance n⟩
  | none =>
    if e.has .rawContent then
      ⟨some (some .rawContent), p, p.skipWhile (· != '`')⟩
    else
      let p := skipSpace e p
      match p.rest with
      | [] => ⟨if e.hasEnd then some none else if e.has .nul then some (some .nul) else none, p, p⟩
      | c :: _ =>
        if c == '\n' && e.has .newline then ⟨some (some .newline), p, p.advance 1⟩
        else match longest e p.rest with
          | some (t, n) => ⟨some (some t), p, p.advance n⟩
          | none => ⟨none, p, p⟩

/-- The end of a stretch of characters that belong to no token, of which at least one is left. -/
def skipUnreadable (p : Place) : List Char → Place
  | [] => p
  | c :: rest =>
    let q := p.after c rest
    if (scan .lost q).found.isSome then q else skipUnreadable q rest

/-- The keyword that a word spells. -/
def keyword? (text : List Char) : Option Terminal :=
  (Terminal.keywords.find? fun (spelling, _) => spelling == text).map (·.2)

/-- Whether a keyword cannot be an identifier here. -/
def isReservedIn (e : Expectation) (t : Terminal) : Bool := e.has .identifier && t.isReserved

end Token

end SpanIndex.Syntax
