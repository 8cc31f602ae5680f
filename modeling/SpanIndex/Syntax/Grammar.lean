import SpanIndex.Syntax.Rule

/-!
# The grammar of Go files

`definitions` gives the content of each phrase. The grammar is more generous than the language: it
accepts statements between the declarations of a file, and a package clause anywhere. What a file
must look like beyond that is the concern of its layout.

A phrase whose content is a choice at several levels of precedence, such as a binary expression,
has one definition for each level.
-/

namespace SpanIndex.Syntax

open Rule

namespace Grammar

/-! ## Parts that occur in several phrases -/

/-- What ends a declaration or statement. -/
def terminator : Rule := oneOf [.newline, .semicolon, .nul]

def identifier : Rule := tok .identifier

def typeIdentifier : Rule := .shownAs .typeIdentifier identifier

def fieldIdentifier : Rule := .shownAs .fieldIdentifier identifier

def packageIdentifier : Rule := .shownAs .packageIdentifier identifier

def labelName : Rule := .shownAs .labelName identifier

def anyType : Rule := anyOf [.simpleType, .parenthesizedType]

def stringLiteral : Rule := anyOf [.rawStringLiteral, .interpretedStringLiteral]

def interfaceElem : Rule := anyOf [.methodElem, .typeElem]

/-- Declarations that only occur in a file, never in a block. -/
def fileDeclaration : Rule :=
  anyOf [.packageClause, .functionDeclaration, .methodDeclaration, .importDeclaration]

/-- The results of a function. -/
def result : Rule := anyOf [.parameterList, .simpleType]

/-- The two built-in functions whose first argument is a type. -/
def allocator : Rule := .shownAs .identifier (oneOf [.kwNew, .kwMake])

/-- A repetition is one copy of its content, or two shorter repetitions. -/
def repetition (c : Category) (content : Rule) : List Definition :=
  [⟨phrase c ++ phrase c ||| content, 0, none⟩]

def plain (content : Rule) : List Definition := [⟨content, 0, none⟩]

/-! ## Levels of precedence -/

def primaryLevel : Int := 7

def unaryLevel : Int := 6

def compositeLiteralLevel : Int := -1

/-- Operators with two operands, by their level. -/
def binaryOperators : List (Int × List Terminal) :=
  [ (5, [.star, .slash, .percent, .shl, .shr, .amp, .andNot]),
    (4, [.plus, .minus, .pipe, .caret]),
    (3, [.eqEq, .notEq, .less, .lessEq, .greater, .greaterEq]),
    (2, [.andAnd]),
    (1, [.orOr]) ]

def assignmentOperators : List Terminal :=
  [ .mulAssign, .divAssign, .remAssign, .shlAssign, .shrAssign, .andAssign, .andNotAssign,
    .addAssign, .subAssign, .orAssign, .xorAssign, .assign ]

/-! ## The content of each phrase -/

/-- The definitions of a phrase. -/
def definitions : Category → List Definition
  | .goal => plain (phrase .sourceFile)
  -- files and declarations
  | .sourceFile => plain (opt (phrase .fileItems) ++ opt fileDeclaration)
  | .fileItems => repetition .fileItems ((phrase .statement ||| fileDeclaration) ++ terminator)
  | .packageClause => plain (tok .kwPackage ++ packageIdentifier)
  | .importDeclaration => plain (tok .kwImport ++ anyOf [.importSpec, .importSpecList])
  | .importSpec =>
    plain (opt (.field .name (phrase .dotName ||| tok .blankIdentifier ||| packageIdentifier))
      ++ stringLiteral)
  | .dotName => plain (tok .dot)
  | .importSpecList =>
    plain (tok .lparen
      ++ opt (phrase .importSpec ++ opt (phrase .moreImportSpecs) ++ opt terminator)
      ++ tok .rparen)
  | .moreImportSpecs => repetition .moreImportSpecs (terminator ++ phrase .importSpec)
  | .declaration => plain (anyOf [.constDeclaration, .typeDeclaration, .varDeclaration])
  | .constDeclaration =>
    plain (tok .kwConst
      ++ (phrase .constSpec ||| tok .lparen ++ opt (phrase .constSpecs) ++ tok .rparen))
  | .constSpecs => repetition .constSpecs (phrase .constSpec ++ terminator)
  | .constSpec =>
    [⟨.field .name (identifier ++ opt (phrase .moreConstNames))
        ++ opt (opt (.field .type anyType) ++ tok .assign ++ phrase .expressionList),
      0, some .left⟩]
  | .moreConstNames => repetition .moreConstNames (tok .comma ++ identifier)
  | .varDeclaration => plain (tok .kwVar ++ anyOf [.varSpec, .varSpecList])
  | .varSpec =>
    plain (.field .name identifier ++ opt (phrase .moreVarNames)
      ++ (.field .type anyType ++ opt (tok .assign ++ phrase .expressionList)
        ||| tok .assign ++ phrase .expressionList))
  | .moreVarNames => repetition .moreVarNames (tok .comma ++ .field .name identifier)
  | .varSpecList => plain (tok .lparen ++ opt (phrase .varSpecs) ++ tok .rparen)
  | .varSpecs => repetition .varSpecs (phrase .varSpec ++ terminator)
  | .functionDeclaration =>
    [⟨tok .kwFunc ++ .field .name identifier ++ opt (phrase .typeParameterList)
        ++ phrase .parameterList ++ opt result ++ opt (phrase .block),
      1, some .right⟩]
  | .methodDeclaration =>
    [⟨tok .kwFunc ++ .field .receiver (phrase .parameterList) ++ .field .name fieldIdentifier
        ++ phrase .parameterList ++ opt result ++ opt (phrase .block),
      1, some .right⟩]
  | .typeParameterList =>
    plain (tok .lbrack ++ phrase .typeParameterDeclaration ++ opt (phrase .moreTypeParameters)
      ++ opt (tok .comma) ++ tok .rbrack)
  | .moreTypeParameters =>
    repetition .moreTypeParameters (tok .comma ++ phrase .typeParameterDeclaration)
  | .typeParameterDeclaration =>
    plain (.field .name identifier ++ opt (phrase .moreVarNames)
      ++ .field .type (phrase .typeElem))
  | .parameterList =>
    plain (tok .lparen
      ++ opt (anyOf [.parameterDeclaration, .variadicParameterDeclaration]
          ++ opt (phrase .moreParameters) ++ opt (tok .comma)
        ||| tok .comma)
      ++ tok .rparen)
  | .moreParameters =>
    repetition .moreParameters
      (tok .comma ++ anyOf [.parameterDeclaration, .variadicParameterDeclaration])
  | .parameterDeclaration =>
    plain (opt (.field .name identifier ++ opt (phrase .moreVarNames)) ++ .field .type anyType)
  | .variadicParameterDeclaration =>
    plain (opt (.field .name identifier) ++ tok .ellipsis ++ .field .type anyType)
  | .typeAlias =>
    plain (.field .name typeIdentifier ++ opt (phrase .typeParameterList) ++ tok .assign
      ++ .field .type anyType)
  | .typeDeclaration =>
    plain (tok .kwType
      ++ (anyOf [.typeSpec, .typeAlias]
        ||| tok .lparen
          ++ opt (anyOf [.typeSpec, .typeAlias] ++ opt (phrase .moreTypeSpecs) ++ opt terminator)
          ++ tok .rparen))
  | .moreTypeSpecs => repetition .moreTypeSpecs (terminator ++ anyOf [.typeSpec, .typeAlias])
  | .typeSpec =>
    plain (.field .name typeIdentifier ++ opt (phrase .typeParameterList)
      ++ .field .type anyType)
  -- types
  | .parenthesizedType => plain (tok .lparen ++ anyType ++ tok .rparen)
  | .simpleType =>
    plain (.weighted (-1) typeIdentifier
      ||| anyOf [.genericType, .qualifiedType, .pointerType, .structType, .interfaceType,
        .arrayType, .sliceType]
      ||| .weighted 3 (phrase .mapType)
      ||| anyOf [.channelType, .functionType, .negatedType])
  | .genericType =>
    plain (.weighted 1
      (.field .type (typeIdentifier ||| anyOf [.qualifiedType, .negatedType])
        ++ phrase .typeArguments))
  | .typeArguments =>
    plain (.weighted 2
      (tok .lbrack ++ phrase .typeElem ++ opt (phrase .moreTypeArguments) ++ opt (tok .comma)
        ++ tok .rbrack))
  | .moreTypeArguments => repetition .moreTypeArguments (tok .comma ++ phrase .typeElem)
  | .pointerType => [⟨tok .star ++ anyType, unaryLevel, none⟩]
  | .arrayType =>
    [⟨tok .lbrack ++ phrase .expression ++ tok .rbrack ++ anyType, 0, some .right⟩]
  | .implicitLengthArrayType => plain (tok .lbrack ++ tok .ellipsis ++ tok .rbrack ++ anyType)
  | .sliceType => [⟨tok .lbrack ++ tok .rbrack ++ anyType, 0, some .right⟩]
  | .structType => plain (tok .kwStruct ++ phrase .fieldDeclarationList)
  | .negatedType => [⟨tok .tilde ++ anyType, 0, some .left⟩]
  | .fieldDeclarationList =>
    plain (tok .lbrace
      ++ opt (phrase .fieldDeclaration ++ opt (phrase .moreFields) ++ opt terminator)
      ++ tok .rbrace)
  | .moreFields => repetition .moreFields (terminator ++ phrase .fieldDeclaration)
  | .fieldDeclaration =>
    plain ((.field .name fieldIdentifier ++ opt (phrase .moreFieldNames) ++ .field .type anyType
        ||| opt (tok .star)
          ++ .field .type (typeIdentifier ||| anyOf [.qualifiedType, .genericType]))
      ++ opt stringLiteral)
  | .moreFieldNames => repetition .moreFieldNames (tok .comma ++ .field .name fieldIdentifier)
  | .interfaceType =>
    plain (tok .kwInterface ++ tok .lbrace
      ++ opt (interfaceElem ++ opt (phrase .moreInterfaceElems) ++ opt terminator)
      ++ tok .rbrace)
  | .moreInterfaceElems => repetition .moreInterfaceElems (terminator ++ interfaceElem)
  | .methodElem =>
    plain (.field .name fieldIdentifier ++ phrase .parameterList ++ opt result)
  | .typeElem => plain (anyType ++ opt (phrase .moreUnionTypes))
  | .moreUnionTypes => repetition .moreUnionTypes (tok .pipe ++ anyType)
  | .mapType =>
    [⟨tok .kwMap ++ tok .lbrack ++ anyType ++ tok .rbrack ++ anyType, 0, some .right⟩]
  | .channelType =>
    [ ⟨tok .kwChan ++ opt (tok .arrow) ++ anyType, 0, some .left⟩,
      ⟨tok .arrow ++ tok .kwChan ++ anyType, unaryLevel, some .left⟩ ]
  | .functionType => [⟨tok .kwFunc ++ phrase .parameterList ++ opt result, 0, some .right⟩]
  | .qualifiedType => plain (packageIdentifier ++ tok .dot ++ .field .name typeIdentifier)
  -- statements
  | .block => plain (tok .lbrace ++ opt (phrase .statementList) ++ tok .rbrace)
  | .statementList =>
    plain (phrase .statement ++ opt (phrase .moreStatements)
        ++ opt (terminator ++ opt (phrase .emptyLabeledStatement))
      ||| phrase .emptyLabeledStatement)
  | .moreStatements => repetition .moreStatements (terminator ++ phrase .statement)
  | .statement =>
    plain (anyOf [.declaration, .simpleStatement, .returnStatement, .goStatement,
      .deferStatement, .ifStatement, .forStatement, .expressionSwitchStatement,
      .typeSwitchStatement, .selectStatement, .labeledStatement, .fallthroughStatement,
      .breakStatement, .continueStatement, .gotoStatement, .block, .emptyStatement])
  | .emptyStatement => plain (tok .semicolon)
  | .simpleStatement =>
    plain (anyOf [.expressionStatement, .sendStatement, .incStatement, .decStatement,
      .assignmentStatement, .shortVarDeclaration])
  | .expressionStatement => plain (phrase .expression)
  | .sendStatement => plain (phrase .expression ++ tok .arrow ++ phrase .expression)
  | .receiveStatement =>
    plain (opt (phrase .expressionList ++ oneOf [.assign, .define]) ++ phrase .expression)
  | .incStatement => plain (phrase .expression ++ tok .increment)
  | .decStatement => plain (phrase .expression ++ tok .decrement)
  | .assignmentStatement =>
    plain (phrase .expressionList ++ oneOf assignmentOperators ++ phrase .expressionList)
  | .shortVarDeclaration =>
    plain (phrase .expressionList ++ tok .define ++ phrase .expressionList)
  | .labeledStatement => plain (labelName ++ tok .colon ++ phrase .statement)
  | .emptyLabeledStatement => plain (labelName ++ tok .colon)
  | .fallthroughStatement => [⟨tok .kwFallthrough, 0, some .left⟩]
  | .breakStatement => plain (tok .kwBreak ++ opt labelName)
  | .continueStatement => plain (tok .kwContinue ++ opt labelName)
  | .gotoStatement => plain (tok .kwGoto ++ labelName)
  | .returnStatement => plain (tok .kwReturn ++ opt (phrase .expressionList))
  | .goStatement => plain (tok .kwGo ++ phrase .expression)
  | .deferStatement => plain (tok .kwDefer ++ phrase .expression)
  | .ifStatement =>
    plain (tok .kwIf ++ opt (phrase .simpleStatement ++ tok .semicolon) ++ phrase .expression
      ++ phrase .block ++ opt (tok .kwElse ++ anyOf [.block, .ifStatement]))
  | .forStatement =>
    plain (tok .kwFor ++ opt (anyOf [.expression, .forClause, .rangeClause]) ++ phrase .block)
  | .forClause =>
    plain (opt (phrase .simpleStatement) ++ tok .semicolon ++ opt (phrase .expression)
      ++ tok .semicolon ++ opt (phrase .simpleStatement))
  | .rangeClause =>
    plain (opt (phrase .expressionList ++ oneOf [.assign, .define]) ++ tok .kwRange
      ++ phrase .expression)
  | .expressionSwitchStatement =>
    plain (tok .kwSwitch ++ opt (phrase .simpleStatement ++ tok .semicolon)
      ++ opt (phrase .expression) ++ tok .lbrace ++ opt (phrase .expressionCases)
      ++ tok .rbrace)
  | .expressionCases =>
    repetition .expressionCases (anyOf [.expressionCase, .defaultCase])
  | .expressionCase =>
    plain (tok .kwCase ++ phrase .expressionList ++ tok .colon ++ opt (phrase .statementList))
  | .defaultCase => plain (tok .kwDefault ++ tok .colon ++ opt (phrase .statementList))
  | .typeSwitchStatement =>
    plain (tok .kwSwitch ++ phrase .typeSwitchHeader ++ tok .lbrace ++ opt (phrase .typeCases)
      ++ tok .rbrace)
  | .typeSwitchHeader =>
    plain (opt (phrase .simpleStatement ++ tok .semicolon)
      ++ opt (phrase .expressionList ++ tok .define) ++ phrase .expression ++ tok .dot
      ++ tok .lparen ++ tok .kwType ++ tok .rparen)
  | .typeCases => repetition .typeCases (anyOf [.typeCase, .defaultCase])
  | .typeCase =>
    plain (tok .kwCase ++ .field .type (anyType ++ opt (phrase .moreCaseTypes)) ++ tok .colon
      ++ opt (phrase .statementList))
  | .moreCaseTypes => repetition .moreCaseTypes (tok .comma ++ anyType)
  | .selectStatement =>
    plain (tok .kwSelect ++ tok .lbrace ++ opt (phrase .communicationCases) ++ tok .rbrace)
  | .communicationCases =>
    repetition .communicationCases (anyOf [.communicationCase, .defaultCase])
  | .communicationCase =>
    plain (tok .kwCase ++ anyOf [.sendStatement, .receiveStatement] ++ tok .colon
      ++ opt (phrase .statementList))
  -- expressions
  | .expressionList => plain (phrase .expression ++ opt (phrase .moreExpressions))
  | .moreExpressions => repetition .moreExpressions (tok .comma ++ phrase .expression)
  | .expression =>
    plain (anyOf [.unaryExpression, .binaryExpression, .selectorExpression, .indexExpression,
        .sliceExpression, .callExpression, .typeAssertionExpression, .typeConversionExpression,
        .typeInstantiationExpression]
      ||| identifier ||| allocator
      ||| anyOf [.compositeLiteral, .funcLiteral] ||| stringLiteral
      ||| oneOf [.intLiteral, .floatLiteral, .imaginaryLiteral, .runeLiteral, .kwNil, .kwTrue,
        .kwFalse, .kwIota]
      ||| phrase .parenthesizedExpression)
  | .parenthesizedExpression => plain (tok .lparen ++ phrase .expression ++ tok .rparen)
  | .callExpression =>
    [⟨allocator ++ phrase .specialArgumentList
        ||| phrase .expression ++ opt (phrase .typeArguments) ++ phrase .argumentList,
      primaryLevel, none⟩]
  | .variadicArgument => [⟨phrase .expression ++ tok .ellipsis, 0, some .right⟩]
  | .specialArgumentList =>
    plain (tok .lparen
      ++ opt (anyType ++ opt (phrase .moreExpressions) ++ opt (tok .comma)) ++ tok .rparen)
  | .argumentList =>
    plain (tok .lparen
      ++ opt (anyOf [.expression, .variadicArgument] ++ opt (phrase .moreArguments)
        ++ opt (tok .comma))
      ++ tok .rparen)
  | .moreArguments =>
    repetition .moreArguments (tok .comma ++ anyOf [.expression, .variadicArgument])
  | .selectorExpression =>
    [⟨phrase .expression ++ tok .dot ++ fieldIdentifier, primaryLevel, none⟩]
  | .indexExpression =>
    [⟨.weighted 1 (phrase .expression ++ tok .lbrack ++ phrase .expression ++ tok .rbrack),
      primaryLevel, none⟩]
  | .sliceExpression =>
    [⟨phrase .expression ++ tok .lbrack
        ++ (opt (phrase .expression) ++ tok .colon ++ opt (phrase .expression)
          ||| opt (phrase .expression) ++ tok .colon ++ phrase .expression ++ tok .colon
            ++ phrase .expression)
        ++ tok .rbrack,
      primaryLevel, none⟩]
  | .typeAssertionExpression =>
    [⟨phrase .expression ++ tok .dot ++ tok .lparen ++ .field .type anyType ++ tok .rparen,
      primaryLevel, none⟩]
  | .typeConversionExpression =>
    plain (.weighted (-1)
      (.field .type anyType ++ tok .lparen ++ phrase .expression ++ opt (tok .comma)
        ++ tok .rparen))
  | .typeInstantiationExpression =>
    plain (.weighted (-1)
      (.field .type anyType ++ tok .lbrack ++ anyType ++ opt (phrase .moreCaseTypes)
        ++ opt (tok .comma) ++ tok .rbrack))
  | .compositeLiteral =>
    [⟨.field .type
        (anyOf [.mapType, .sliceType, .arrayType, .implicitLengthArrayType, .structType]
          ||| typeIdentifier ||| anyOf [.genericType, .qualifiedType])
        ++ phrase .literalValue,
      compositeLiteralLevel, none⟩]
  | .literalValue =>
    plain (tok .lbrace
      ++ opt (anyOf [.literalElement, .keyedElement] ++ opt (phrase .moreLiteralElements)
          ++ opt (tok .comma)
        ||| tok .comma)
      ++ tok .rbrace)
  | .moreLiteralElements =>
    repetition .moreLiteralElements (tok .comma ++ anyOf [.literalElement, .keyedElement])
  | .literalElement => plain (anyOf [.expression, .literalValue])
  | .keyedElement => plain (phrase .literalElement ++ tok .colon ++ phrase .literalElement)
  | .funcLiteral =>
    plain (tok .kwFunc ++ phrase .parameterList ++ opt result ++ phrase .block)
  | .unaryExpression =>
    [⟨oneOf [.plus, .minus, .bang, .caret, .star, .amp, .arrow] ++ phrase .expression,
      unaryLevel, none⟩]
  | .binaryExpression =>
    binaryOperators.map fun (level, operators) =>
      ⟨phrase .expression ++ oneOf operators ++ phrase .expression, level, some .left⟩
  | .rawStringLiteral => plain (tok .backquote ++ tok .rawContent ++ tok .backquote)
  | .interpretedStringLiteral =>
    plain (tok .quote ++ opt (phrase .stringParts) ++ tok .closingQuote)
  | .stringParts => repetition .stringParts (oneOf [.stringContent, .escapeSequence])

/-- All productions, grouped by the phrase they belong to. -/
def productions : List Production :=
  Category.all.flatMap fun c => (definitions c).flatMap (Definition.productions c)

end Grammar

end SpanIndex.Syntax
