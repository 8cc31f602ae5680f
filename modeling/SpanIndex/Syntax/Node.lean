import SpanIndex.Syntax.Parse

/-!
# Syntax trees as their readers see them

A `Node` is a node of a syntax tree with everything that the rest of the program may ask about it.
Hidden phrases have no node; identifiers have the kind of their role.
-/

namespace SpanIndex.Syntax

/-- Whether a node fits the grammar. -/
inductive Flag where
  | sound
  /-- A stretch of text that does not fit. -/
  | error
  /-- A token that is not there. -/
  | missing
deriving DecidableEq, Inhabited

/-- A node of a syntax tree. Rows are counted from 0. -/
structure Node where
  kind : String
  /-- Phrases, identifiers, literals and comments are named; keywords and punctuation are not. -/
  named : Bool
  flag : Flag
  /-- The role of the node in its parent. -/
  field : Option Field
  startRow : Nat
  endRow : Nat
  text : List Char
  children : List Node
deriving Inhabited

namespace Node

def isComment (n : Node) : Bool := n.kind == "comment"

/-- The first child in a given role. -/
def child? (n : Node) (f : Field) : Option Node := n.children.find? (·.field == some f)

end Node

namespace Tree

/-- The kind of node that a label stands for. -/
def Label.kind : Label → String
  | .symbol (.terminal t) => t.name
  | .symbol (.category c) => c.name
  | .error => "ERROR"
  | .skipped | .endOfInput => ""

def Label.isNamed : Label → Bool
  | .symbol (.terminal t) => t.isNamed
  | .symbol (.category _) | .error => true
  | .skipped | .endOfInput => false

/-- The steps of the production that a tree was built with. -/
def stepsOf (f : Facts) : List Step :=
  match f.production with
  | some p => (Grammar.production p).steps.toList
  | none => []

/-- The node of a visible tree that plays the role `role` and is shown as `shownAs`. -/
def nodeOf (role : Option Field) (shownAs : Option Alias) (f : Facts) (children : List Node) : Node :=
  { kind := (shownAs.map Alias.kind).getD (Label.kind f.label)
    named := shownAs.isSome || Label.isNamed f.label
    flag := if f.missing then .missing else if f.label == .error then .error else .sound
    field := role
    startRow := f.start.row
    endRow := f.stop.row
    text := f.start.textTo f.stop
    children }

mutual

/-- The nodes that a tree contributes to the node around it, where it plays the role `role` and is
shown as `shownAs`. A hidden tree contributes the nodes of its children. -/
def nodes (role : Option Field) (shownAs : Option Alias) : Tree → List Node
  | .node f children =>
    if f.label.isVisible then [nodeOf role shownAs f (childNodes none (stepsOf f) children)]
    else childNodes role (stepsOf f) children

/-- The nodes of the children of a tree. Each child that is part of the phrase belongs to a step of its
production; comments and errors belong to none. -/
def childNodes (inherited : Option Field) : List Step → List Tree → List Node
  | _, [] => []
  | steps, t :: ts =>
    if t.facts.extra then nodes none none t ++ childNodes inherited steps ts
    else
      let step := steps.head?
      nodes ((step.bind (·.field)) <|> inherited) (step.bind (·.shownAs)) t
        ++ childNodes inherited (steps.drop 1) ts

end

end Tree

/-- The root of the syntax tree of a text. -/
def rootOf (text : List Char) : Node :=
  ((parse text).nodes none none).headD default

end SpanIndex.Syntax
