/-!
# The symbols of the grammar

A Go file is read with a grammar over two kinds of symbols. `Terminal` lists the tokens, `Category`
the phrases built from them. Some categories only group others and leave no node in the syntax tree;
they are *hidden*. A *repetition* is a hidden category that stands for one or more copies of its
content.

Sets of terminals are written as bits of a natural number (`Expectation`). Bit 0 stands for the end
of the input and bit `Terminal.code t` for `t`.
-/

namespace SpanIndex.Syntax

/-! ## Tokens -/

/-- The tokens of a Go file. The order matters in one place: where a token is missing, the first
one that fits is supplied. -/
inductive Terminal where
  | identifier | newline | semicolon | nul
  | kwPackage | kwImport | dot | blankIdentifier | lparen | rparen
  | kwConst | comma | assign | kwVar | kwFunc | lbrack | rbrack | ellipsis | kwType
  | star | kwStruct | tilde | lbrace | rbrace | kwInterface | pipe | kwMap | kwChan | arrow
  | define | increment | decrement
  | mulAssign | divAssign | remAssign | shlAssign | shrAssign | andAssign | andNotAssign
  | addAssign | subAssign | orAssign | xorAssign
  | colon | kwFallthrough | kwBreak | kwContinue | kwGoto | kwReturn | kwGo | kwDefer
  | kwIf | kwElse | kwFor | kwRange | kwSwitch | kwCase | kwDefault | kwSelect | kwNew | kwMake
  | plus | minus | bang | caret | amp | slash | percent | shl | shr | andNot
  | eqEq | notEq | less | lessEq | greater | greaterEq | andAnd | orOr
  | backquote | rawContent | quote | stringContent | closingQuote | escapeSequence
  | intLiteral | floatLiteral | imaginaryLiteral | runeLiteral
  | kwNil | kwTrue | kwFalse | kwIota | comment
deriving DecidableEq, Inhabited

namespace Terminal

/-- The bit that stands for the token in an `Expectation`. -/
def code (t : Terminal) : Nat := t.ctorIdx + 1

/-- All tokens, by increasing code. -/
def all : List Terminal :=
  [ .identifier, .newline, .semicolon, .nul,
    .kwPackage, .kwImport, .dot, .blankIdentifier, .lparen, .rparen,
    .kwConst, .comma, .assign, .kwVar, .kwFunc, .lbrack, .rbrack, .ellipsis, .kwType,
    .star, .kwStruct, .tilde, .lbrace, .rbrace, .kwInterface, .pipe, .kwMap, .kwChan, .arrow,
    .define, .increment, .decrement,
    .mulAssign, .divAssign, .remAssign, .shlAssign, .shrAssign, .andAssign, .andNotAssign,
    .addAssign, .subAssign, .orAssign, .xorAssign,
    .colon, .kwFallthrough, .kwBreak, .kwContinue, .kwGoto, .kwReturn, .kwGo, .kwDefer,
    .kwIf, .kwElse, .kwFor, .kwRange, .kwSwitch, .kwCase, .kwDefault, .kwSelect, .kwNew, .kwMake,
    .plus, .minus, .bang, .caret, .amp, .slash, .percent, .shl, .shr, .andNot,
    .eqEq, .notEq, .less, .lessEq, .greater, .greaterEq, .andAnd, .orOr,
    .backquote, .rawContent, .quote, .stringContent, .closingQuote, .escapeSequence,
    .intLiteral, .floatLiteral, .imaginaryLiteral, .runeLiteral,
    .kwNil, .kwTrue, .kwFalse, .kwIota, .comment ]

/-- The number of codes, the end of the input included. -/
def codeCount : Nat := 95

/-- What the token is called in a syntax tree: its spelling, if it has only one. -/
def name : Terminal → String
  | .identifier => "identifier" | .newline => "\n" | .semicolon => ";" | .nul => "\x00"
  | .kwPackage => "package" | .kwImport => "import" | .dot => "."
  | .blankIdentifier => "blank_identifier" | .lparen => "(" | .rparen => ")"
  | .kwConst => "const" | .comma => "," | .assign => "=" | .kwVar => "var" | .kwFunc => "func"
  | .lbrack => "[" | .rbrack => "]" | .ellipsis => "..." | .kwType => "type" | .star => "*"
  | .kwStruct => "struct" | .tilde => "~" | .lbrace => "\x7b" | .rbrace => "\x7d"
  | .kwInterface => "interface" | .pipe => "|" | .kwMap => "map" | .kwChan => "chan"
  | .arrow => "<-" | .define => ":=" | .increment => "++" | .decrement => "--"
  | .mulAssign => "*=" | .divAssign => "/=" | .remAssign => "%=" | .shlAssign => "<<="
  | .shrAssign => ">>=" | .andAssign => "&=" | .andNotAssign => "&^=" | .addAssign => "+="
  | .subAssign => "-=" | .orAssign => "|=" | .xorAssign => "^=" | .colon => ":"
  | .kwFallthrough => "fallthrough" | .kwBreak => "break" | .kwContinue => "continue"
  | .kwGoto => "goto" | .kwReturn => "return" | .kwGo => "go" | .kwDefer => "defer"
  | .kwIf => "if" | .kwElse => "else" | .kwFor => "for" | .kwRange => "range"
  | .kwSwitch => "switch" | .kwCase => "case" | .kwDefault => "default" | .kwSelect => "select"
  | .kwNew => "new" | .kwMake => "make"
  | .plus => "+" | .minus => "-" | .bang => "!" | .caret => "^" | .amp => "&" | .slash => "/"
  | .percent => "%" | .shl => "<<" | .shr => ">>" | .andNot => "&^" | .eqEq => "=="
  | .notEq => "!=" | .less => "<" | .lessEq => "<=" | .greater => ">" | .greaterEq => ">="
  | .andAnd => "&&" | .orOr => "||" | .backquote => "`"
  | .rawContent => "raw_string_literal_content" | .quote => "\""
  | .stringContent => "interpreted_string_literal_content" | .closingQuote => "\""
  | .escapeSequence => "escape_sequence" | .intLiteral => "int_literal"
  | .floatLiteral => "float_literal" | .imaginaryLiteral => "imaginary_literal"
  | .runeLiteral => "rune_literal" | .kwNil => "nil" | .kwTrue => "true" | .kwFalse => "false"
  | .kwIota => "iota" | .comment => "comment"

/-- Tokens that count as phrases of their own, unlike keywords and punctuation. -/
def isNamed : Terminal → Bool
  | .identifier | .blankIdentifier | .rawContent | .stringContent | .escapeSequence
  | .intLiteral | .floatLiteral | .imaginaryLiteral | .runeLiteral
  | .kwNil | .kwTrue | .kwFalse | .kwIota | .comment => true
  | _ => false

/-- A newline that ends a line leaves no node in the tree. -/
def isVisible : Terminal → Bool
  | .newline => false
  | _ => true

/-- The words with a meaning of their own, in their spelling. -/
def keywords : List (List Char × Terminal) :=
  [ ("package".toList, .kwPackage), ("import".toList, .kwImport), ("_".toList, .blankIdentifier),
    ("const".toList, .kwConst), ("var".toList, .kwVar), ("func".toList, .kwFunc),
    ("type".toList, .kwType), ("struct".toList, .kwStruct), ("interface".toList, .kwInterface),
    ("map".toList, .kwMap), ("chan".toList, .kwChan), ("fallthrough".toList, .kwFallthrough),
    ("break".toList, .kwBreak), ("continue".toList, .kwContinue), ("goto".toList, .kwGoto),
    ("return".toList, .kwReturn), ("go".toList, .kwGo), ("defer".toList, .kwDefer),
    ("if".toList, .kwIf), ("else".toList, .kwElse), ("for".toList, .kwFor),
    ("range".toList, .kwRange), ("switch".toList, .kwSwitch), ("case".toList, .kwCase),
    ("default".toList, .kwDefault), ("select".toList, .kwSelect), ("new".toList, .kwNew),
    ("make".toList, .kwMake), ("nil".toList, .kwNil), ("true".toList, .kwTrue),
    ("false".toList, .kwFalse), ("iota".toList, .kwIota) ]

/-- Words that are never identifiers where an identifier could stand. -/
def isReserved : Terminal → Bool
  | .kwBreak | .kwDefault | .kwFunc | .kwInterface | .kwSelect | .kwCase | .kwDefer | .kwGo
  | .kwMap | .kwStruct | .kwChan | .kwElse | .kwGoto | .kwPackage | .kwSwitch | .kwConst
  | .kwFallthrough | .kwIf | .kwRange | .kwType | .kwContinue | .kwFor | .kwImport | .kwReturn
  | .kwVar => true
  | _ => false

/-- Punctuation and its spelling, longer spellings first. -/
def punctuation : List (List Char × Terminal) :=
  [ ("...".toList, .ellipsis), ("<<=".toList, .shlAssign), (">>=".toList, .shrAssign),
    ("&^=".toList, .andNotAssign),
    ("<-".toList, .arrow), (":=".toList, .define), ("++".toList, .increment),
    ("--".toList, .decrement), ("*=".toList, .mulAssign), ("/=".toList, .divAssign),
    ("%=".toList, .remAssign), ("&=".toList, .andAssign), ("+=".toList, .addAssign),
    ("-=".toList, .subAssign), ("|=".toList, .orAssign), ("^=".toList, .xorAssign),
    ("<<".toList, .shl), (">>".toList, .shr), ("&^".toList, .andNot), ("==".toList, .eqEq),
    ("!=".toList, .notEq), ("<=".toList, .lessEq), (">=".toList, .greaterEq),
    ("&&".toList, .andAnd), ("||".toList, .orOr),
    (";".toList, .semicolon), (".".toList, .dot), ("(".toList, .lparen), (")".toList, .rparen),
    (",".toList, .comma), ("=".toList, .assign), ("[".toList, .lbrack), ("]".toList, .rbrack),
    ("*".toList, .star), ("~".toList, .tilde), ("\x7b".toList, .lbrace), ("\x7d".toList, .rbrace),
    ("|".toList, .pipe), (":".toList, .colon), ("+".toList, .plus), ("-".toList, .minus),
    ("!".toList, .bang), ("^".toList, .caret), ("&".toList, .amp), ("/".toList, .slash),
    ("%".toList, .percent), ("<".toList, .less), (">".toList, .greater),
    ("`".toList, .backquote), ("\"".toList, .quote) ]

end Terminal

/-! ## Phrases -/

/-- The phrases of a Go file. Repetitions come last; `goal` is a whole file followed by the end of
the input. -/
inductive Category where
  | sourceFile | packageClause | importDeclaration | importSpec | dotName | importSpecList
  | declaration | constDeclaration | constSpec | varDeclaration | varSpec | varSpecList
  | functionDeclaration | methodDeclaration | typeParameterList | typeParameterDeclaration
  | parameterList | parameterDeclaration | variadicParameterDeclaration
  | typeAlias | typeDeclaration | typeSpec | expressionList
  | parenthesizedType | simpleType | genericType | typeArguments | pointerType | arrayType
  | implicitLengthArrayType | sliceType | structType | negatedType | fieldDeclarationList
  | fieldDeclaration | interfaceType | methodElem | typeElem | mapType | channelType | functionType
  | block | statementList | statement | emptyStatement | simpleStatement | expressionStatement
  | sendStatement | receiveStatement | incStatement | decStatement | assignmentStatement
  | shortVarDeclaration | labeledStatement | emptyLabeledStatement | fallthroughStatement
  | breakStatement | continueStatement | gotoStatement | returnStatement | goStatement
  | deferStatement | ifStatement | forStatement | forClause | rangeClause
  | expressionSwitchStatement | expressionCase | defaultCase | typeSwitchStatement
  | typeSwitchHeader | typeCase | selectStatement | communicationCase
  | expression | parenthesizedExpression | callExpression | variadicArgument
  | specialArgumentList | argumentList | selectorExpression | indexExpression | sliceExpression
  | typeAssertionExpression | typeConversionExpression | typeInstantiationExpression
  | compositeLiteral | literalValue | literalElement | keyedElement | funcLiteral
  | unaryExpression | binaryExpression | qualifiedType | rawStringLiteral
  | interpretedStringLiteral
  | fileItems | moreImportSpecs | constSpecs | moreConstNames | moreVarNames | varSpecs
  | moreTypeParameters | moreParameters | moreTypeSpecs | moreExpressions | moreTypeArguments
  | moreFields | moreFieldNames | moreInterfaceElems | moreUnionTypes | moreStatements
  | expressionCases | typeCases | moreCaseTypes | communicationCases | moreArguments
  | moreLiteralElements | stringParts
  | goal
deriving DecidableEq, Inhabited

namespace Category

/-- All phrases, in order. -/
def all : List Category :=
  [ .sourceFile, .packageClause, .importDeclaration, .importSpec, .dotName, .importSpecList,
    .declaration, .constDeclaration, .constSpec, .varDeclaration, .varSpec, .varSpecList,
    .functionDeclaration, .methodDeclaration, .typeParameterList, .typeParameterDeclaration,
    .parameterList, .parameterDeclaration, .variadicParameterDeclaration,
    .typeAlias, .typeDeclaration, .typeSpec, .expressionList,
    .parenthesizedType, .simpleType, .genericType, .typeArguments, .pointerType, .arrayType,
    .implicitLengthArrayType, .sliceType, .structType, .negatedType, .fieldDeclarationList,
    .fieldDeclaration, .interfaceType, .methodElem, .typeElem, .mapType, .channelType,
    .functionType,
    .block, .statementList, .statement, .emptyStatement, .simpleStatement, .expressionStatement,
    .sendStatement, .receiveStatement, .incStatement, .decStatement, .assignmentStatement,
    .shortVarDeclaration, .labeledStatement, .emptyLabeledStatement, .fallthroughStatement,
    .breakStatement, .continueStatement, .gotoStatement, .returnStatement, .goStatement,
    .deferStatement, .ifStatement, .forStatement, .forClause, .rangeClause,
    .expressionSwitchStatement, .expressionCase, .defaultCase, .typeSwitchStatement,
    .typeSwitchHeader, .typeCase, .selectStatement, .communicationCase,
    .expression, .parenthesizedExpression, .callExpression, .variadicArgument,
    .specialArgumentList, .argumentList, .selectorExpression, .indexExpression, .sliceExpression,
    .typeAssertionExpression, .typeConversionExpression, .typeInstantiationExpression,
    .compositeLiteral, .literalValue, .literalElement, .keyedElement, .funcLiteral,
    .unaryExpression, .binaryExpression, .qualifiedType, .rawStringLiteral,
    .interpretedStringLiteral,
    .fileItems, .moreImportSpecs, .constSpecs, .moreConstNames, .moreVarNames, .varSpecs,
    .moreTypeParameters, .moreParameters, .moreTypeSpecs, .moreExpressions, .moreTypeArguments,
    .moreFields, .moreFieldNames, .moreInterfaceElems, .moreUnionTypes, .moreStatements,
    .expressionCases, .typeCases, .moreCaseTypes, .communicationCases, .moreArguments,
    .moreLiteralElements, .stringParts,
    .goal ]

/-- The position of the phrase in `all`. -/
def index (c : Category) : Nat := c.ctorIdx

/-- A repetition may be followed by another copy of itself, so that a longer one arises. -/
def isRepetition (c : Category) : Bool :=
  Category.fileItems.ctorIdx ≤ c.ctorIdx && c.ctorIdx < Category.goal.ctorIdx

/-- Hidden phrases have no node of their own: their children belong to the phrase around them. -/
def isVisible : Category → Bool
  | .declaration | .simpleType | .statement | .simpleStatement | .typeSwitchHeader
  | .expression | .goal => false
  | c => !c.isRepetition

/-- The kind of node that a phrase has in a syntax tree. -/
def name : Category → String
  | .sourceFile => "source_file" | .packageClause => "package_clause"
  | .importDeclaration => "import_declaration" | .importSpec => "import_spec"
  | .dotName => "dot" | .importSpecList => "import_spec_list"
  | .constDeclaration => "const_declaration" | .constSpec => "const_spec"
  | .varDeclaration => "var_declaration" | .varSpec => "var_spec"
  | .varSpecList => "var_spec_list" | .functionDeclaration => "function_declaration"
  | .methodDeclaration => "method_declaration" | .typeParameterList => "type_parameter_list"
  | .typeParameterDeclaration => "type_parameter_declaration"
  | .parameterList => "parameter_list" | .parameterDeclaration => "parameter_declaration"
  | .variadicParameterDeclaration => "variadic_parameter_declaration"
  | .typeAlias => "type_alias" | .typeDeclaration => "type_declaration"
  | .typeSpec => "type_spec" | .expressionList => "expression_list"
  | .parenthesizedType => "parenthesized_type" | .genericType => "generic_type"
  | .typeArguments => "type_arguments" | .pointerType => "pointer_type"
  | .arrayType => "array_type" | .implicitLengthArrayType => "implicit_length_array_type"
  | .sliceType => "slice_type" | .structType => "struct_type" | .negatedType => "negated_type"
  | .fieldDeclarationList => "field_declaration_list" | .fieldDeclaration => "field_declaration"
  | .interfaceType => "interface_type" | .methodElem => "method_elem" | .typeElem => "type_elem"
  | .mapType => "map_type" | .channelType => "channel_type" | .functionType => "function_type"
  | .block => "block" | .statementList => "statement_list" | .emptyStatement => "empty_statement"
  | .expressionStatement => "expression_statement" | .sendStatement => "send_statement"
  | .receiveStatement => "receive_statement" | .incStatement => "inc_statement"
  | .decStatement => "dec_statement" | .assignmentStatement => "assignment_statement"
  | .shortVarDeclaration => "short_var_declaration" | .labeledStatement => "labeled_statement"
  | .emptyLabeledStatement => "labeled_statement"
  | .fallthroughStatement => "fallthrough_statement" | .breakStatement => "break_statement"
  | .continueStatement => "continue_statement" | .gotoStatement => "goto_statement"
  | .returnStatement => "return_statement" | .goStatement => "go_statement"
  | .deferStatement => "defer_statement" | .ifStatement => "if_statement"
  | .forStatement => "for_statement" | .forClause => "for_clause" | .rangeClause => "range_clause"
  | .expressionSwitchStatement => "expression_switch_statement"
  | .expressionCase => "expression_case" | .defaultCase => "default_case"
  | .typeSwitchStatement => "type_switch_statement" | .typeCase => "type_case"
  | .selectStatement => "select_statement" | .communicationCase => "communication_case"
  | .parenthesizedExpression => "parenthesized_expression" | .callExpression => "call_expression"
  | .variadicArgument => "variadic_argument" | .specialArgumentList => "argument_list"
  | .argumentList => "argument_list" | .selectorExpression => "selector_expression"
  | .indexExpression => "index_expression" | .sliceExpression => "slice_expression"
  | .typeAssertionExpression => "type_assertion_expression"
  | .typeConversionExpression => "type_conversion_expression"
  | .typeInstantiationExpression => "type_instantiation_expression"
  | .compositeLiteral => "composite_literal" | .literalValue => "literal_value"
  | .literalElement => "literal_element" | .keyedElement => "keyed_element"
  | .funcLiteral => "func_literal" | .unaryExpression => "unary_expression"
  | .binaryExpression => "binary_expression" | .qualifiedType => "qualified_type"
  | .rawStringLiteral => "raw_string_literal"
  | .interpretedStringLiteral => "interpreted_string_literal"
  | _ => ""

end Category

/-! ## Symbols -/

/-- What a production is made of. -/
inductive Symbol where
  | terminal (t : Terminal)
  | category (c : Category)
deriving DecidableEq, Inhabited

/-- Tokens come first, from 1 on; phrases follow. -/
def Symbol.code : Symbol → Nat
  | .terminal t => t.code
  | .category c => Terminal.codeCount + c.index

/-- A token, or the end of the input. -/
abbrev Lookahead := Option Terminal

/-- A set of tokens, the end of the input being one of them. -/
abbrev Expectation := Nat

namespace Expectation

/-- The end of the input alone. -/
def ofEnd : Expectation := 1

/-- One token alone. -/
def ofTerminal (t : Terminal) : Expectation := 1 <<< t.code

/-- Whether the end of the input is in the set. -/
def hasEnd (e : Expectation) : Bool := e.testBit 0

/-- Whether a token is in the set. -/
def has (e : Expectation) (t : Terminal) : Bool := e.testBit t.code

/-- Whether a token or the end of the input is in the set. -/
def allows (e : Expectation) : Lookahead → Bool
  | none => e.hasEnd
  | some t => e.has t

end Expectation

end SpanIndex.Syntax
