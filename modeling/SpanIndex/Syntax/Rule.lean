import SpanIndex.Syntax.Symbol

/-!
# Rules and productions

A `Rule` describes the content of a phrase with sequences, choices and optional parts. A grammar
gives each phrase a list of `Definition`s; spelling out their choices yields `Production`s, which
are plain sequences of symbols.

A production also says how a conflict with another one is settled: its `level` of precedence, its
associativity, and a `weight` that decides between two readings of the same text.
-/

namespace SpanIndex.Syntax

/-! ## Steps of a production -/

/-- The role that a part plays in the phrase around it. -/
inductive Field where
  | name | receiver | type
deriving DecidableEq, Inhabited

/-- The kinds under which an identifier can stand in the tree. -/
inductive Alias where
  | identifier | typeIdentifier | fieldIdentifier | packageIdentifier | labelName
deriving DecidableEq, Inhabited

/-- The kind of node that an alias stands for. -/
def Alias.kind : Alias → String
  | .identifier => "identifier"
  | .typeIdentifier => "type_identifier"
  | .fieldIdentifier => "field_identifier"
  | .packageIdentifier => "package_identifier"
  | .labelName => "label_name"

/-- A symbol in a production, the role it plays there and the kind it is shown as. -/
structure Step where
  symbol : Symbol
  field : Option Field := none
  shownAs : Option Alias := none
deriving DecidableEq, Inhabited

/-- How a chain of equal operators is grouped. -/
inductive Associativity where
  | left | right
deriving DecidableEq, Inhabited

/-! ## Rules -/

/-- The content of a phrase. -/
inductive Rule where
  | empty
  | symbol (s : Symbol)
  | seq (first second : Rule)
  | alt (first second : Rule)
  | field (f : Field) (content : Rule)
  | shownAs (a : Alias) (content : Rule)
  | weighted (w : Int) (content : Rule)

namespace Rule

instance : Coe Terminal Rule := ⟨fun t => .symbol (.terminal t)⟩

instance : Coe Category Rule := ⟨fun c => .symbol (.category c)⟩

instance : Append Rule := ⟨.seq⟩

instance : OrOp Rule := ⟨.alt⟩

/-- A token. -/
def tok (t : Terminal) : Rule := .symbol (.terminal t)

/-- A phrase. -/
def phrase (c : Category) : Rule := .symbol (.category c)

/-- A part that may be left out. -/
def opt (r : Rule) : Rule := .alt r .empty

/-- One of several tokens. -/
def oneOf : List Terminal → Rule
  | [] => .empty
  | [t] => tok t
  | t :: ts => .alt (tok t) (oneOf ts)

/-- One of several phrases. -/
def anyOf : List Category → Rule
  | [] => .empty
  | [c] => phrase c
  | c :: cs => .alt (phrase c) (anyOf cs)

/-- One way to spell out the choices of a rule. -/
structure Alternative where
  steps : List Step
  weight : Int := 0

/-- Of two weights the one further from zero, the first if they are equally far. -/
def strongest (v w : Int) : Int := if v.natAbs < w.natAbs then w else v

/-- All ways to spell out the choices of a rule. The innermost role and kind of a symbol win. -/
def alternatives : Rule → List Alternative
  | .empty => [⟨[], 0⟩]
  | .symbol s => [⟨[⟨s, none, none⟩], 0⟩]
  | .seq a b =>
    a.alternatives.flatMap fun x =>
      b.alternatives.map fun y => ⟨x.steps ++ y.steps, strongest x.weight y.weight⟩
  | .alt a b => a.alternatives ++ b.alternatives
  | .field f r =>
    r.alternatives.map fun x =>
      ⟨x.steps.map fun s => { s with field := s.field <|> some f }, x.weight⟩
  | .shownAs a r =>
    r.alternatives.map fun x =>
      ⟨x.steps.map fun s => { s with shownAs := s.shownAs <|> some a }, x.weight⟩
  | .weighted w r => r.alternatives.map fun x => ⟨x.steps, strongest w x.weight⟩

end Rule

/-! ## Definitions and productions -/

/-- A rule together with the precedence of all its alternatives. -/
structure Definition where
  content : Rule
  level : Int := 0
  assoc : Option Associativity := none

/-- A phrase and one sequence of symbols that it can consist of. -/
structure Production where
  head : Category
  steps : Array Step
  level : Int
  assoc : Option Associativity
  weight : Int
deriving Inhabited

/-- The symbol that a production begins with. -/
def Production.first? (p : Production) : Option Symbol := p.steps[0]?.map Step.symbol

/-- The productions that a definition of `head` gives rise to. -/
def Definition.productions (head : Category) (d : Definition) : List Production :=
  d.content.alternatives.map fun a => ⟨head, a.steps.toArray, d.level, d.assoc, a.weight⟩

end SpanIndex.Syntax
