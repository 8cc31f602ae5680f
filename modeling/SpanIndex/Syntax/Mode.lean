import SpanIndex.Syntax.Symbol

/-!
# Reading modes

Which token stands at a place depends on the tokens that are looked for. They are looked for in
groups, the *modes*, and not one by one: where a statement may end, say, every operator is recognised,
also one that does not fit there. `Mode.ofExpectation` finds the mode for what is expected, which
is the first that holds all of it and adds no token that would swallow an expected one.
-/

namespace SpanIndex.Syntax

/-- The groups of tokens that are looked for together. -/
inductive Mode where
  /-- After a syntax error. White space separates all tokens. -/
  | lost
  /-- Where a statement or an operand begins. -/
  | beginning
  /-- Where a statement may end. -/
  | statementEnd
  /-- After an operand that an assignment may follow. -/
  | assigned
  /-- Where an operand begins if the statement does not end. -/
  | optionalOperand
  /-- After an operand that a word may follow. -/
  | beforeWord
  /-- After an operand in brackets. -/
  | bracketed
  /-- After an operand at the end of a statement that cannot become an assignment. -/
  | operandEnd
  /-- Inside a string literal, where white space counts. -/
  | string
  /-- Inside a raw string literal. -/
  | rawString
deriving DecidableEq, Inhabited

namespace Mode

/-- All modes, those that are preferred first. -/
def all : List Mode :=
  [.lost, .beginning, .statementEnd, .assigned, .optionalOperand, .beforeWord, .bracketed,
    .operandEnd, .string, .rawString]

/-! ## Tokens of a mode -/

/-- Identifiers and keywords, which are told apart only after they have been read. -/
def words : List Terminal := .identifier :: Terminal.keywords.map (·.2)

/-- The tokens that an operand can begin with. -/
def operandStart : List Terminal :=
  words ++ [.lparen, .lbrack, .star, .tilde, .arrow, .plus, .minus, .bang, .caret, .amp,
    .backquote, .quote, .intLiteral, .floatLiteral, .imaginaryLiteral, .runeLiteral, .comment]

/-- The tokens that can go on after an operand. -/
def afterOperand : List Terminal :=
  [.dot, .lparen, .comma, .lbrack, .lbrace, .star, .pipe, .plus, .minus, .caret, .amp, .slash,
    .percent, .shl, .shr, .andNot, .eqEq, .notEq, .less, .lessEq, .greater, .greaterEq, .andAnd,
    .orOr, .comment]

/-- Operators that change a variable. -/
def updates : List Terminal :=
  [.mulAssign, .divAssign, .remAssign, .shlAssign, .shrAssign, .andAssign, .andNotAssign,
    .addAssign, .subAssign, .orAssign, .xorAssign]

/-- What ends a statement. -/
def terminators : List Terminal := [.newline, .semicolon, .nul]

/-- The tokens of a mode. -/
def terminals : Mode → List Terminal
  | .lost => Terminal.all.filter fun t =>
    match t with
    | .newline | .rawContent | .stringContent | .closingQuote | .escapeSequence => false
    | _ => true
  | .beginning =>
    operandStart ++ [.semicolon, .rparen, .comma, .rbrack, .ellipsis, .lbrace, .rbrace, .colon]
  | .statementEnd =>
    afterOperand ++ words ++ terminators ++ updates ++ [.rparen, .assign, .tilde, .rbrace, .arrow,
      .define, .increment, .decrement, .colon, .backquote, .quote]
  | .assigned => afterOperand ++ updates ++ [.assign, .define]
  | .optionalOperand => operandStart ++ terminators ++ [.rbrace]
  | .beforeWord =>
    afterOperand ++ words ++ [.assign, .rbrack, .tilde, .arrow, .define, .colon]
  | .bracketed =>
    afterOperand ++ [.semicolon, .rparen, .assign, .rbrack, .ellipsis, .rbrace, .define, .colon]
  | .operandEnd => afterOperand ++ words ++ terminators ++ [.rbrace]
  | .string => [.stringContent, .closingQuote, .escapeSequence, .comment]
  | .rawString => [.rawContent, .comment]

/-- Whether the end of the input is recognised in the mode. -/
def seesEnd : Mode → Bool
  | .lost | .beginning | .statementEnd => true
  | _ => false

/-- What is looked for in the mode. -/
def sought (m : Mode) : Expectation :=
  m.terminals.foldl (fun e t => e ||| Expectation.ofTerminal t)
    (if m.seesEnd then Expectation.ofEnd else 0)

/-! ## The mode for what is expected -/

/-- Operators with a beginning that is an operator too, of which the rest can begin an operand. If
both are looked for, `a<-b` is never a comparison with `-b`. -/
def swallowing : List (Terminal × Terminal) :=
  [ (.arrow, .less), (.shl, .less), (.shlAssign, .less), (.increment, .plus), (.decrement, .minus),
    (.andAnd, .amp), (.andNot, .amp), (.andNotAssign, .amp) ]

/-- Whether what is expected can be read in a mode: it is looked for, and no other token that is looked
for takes its place. A line break would take the place of white space. -/
def suits (m : Mode) (expected : Expectation) : Bool :=
  let sought := m.sought
  let isExtra := fun t => sought.has t && !expected.has t
  (expected ||| sought) == sought && !isExtra .newline
    && swallowing.all fun (longer, shorter) => !(isExtra longer && expected.has shorter)

/-- The mode in which a place is read. -/
def ofExpectation (expected : Expectation) : Mode :=
  (all.find? fun m => m.suits expected).getD .lost

end Mode

end SpanIndex.Syntax
