import SpanIndex.Syntax.Automaton
import SpanIndex.Syntax.Place

/-!
# Concrete syntax trees

A `Tree` records how a stretch of text was read. Besides phrases and tokens it can hold what did not
fit: stretches that were skipped (`error`) and tokens that were supplied (`missing`). Both have a
cost, so that of several ways to read a text the one that fits best can be chosen.
-/

namespace SpanIndex.Syntax

/-- What a node of a tree stands for. -/
inductive Label where
  /-- A token or a phrase. -/
  | symbol (s : Symbol)
  /-- A stretch of text that does not fit. -/
  | error
  /-- Tokens that are being skipped. -/
  | skipped
  | endOfInput
deriving DecidableEq, Inhabited

namespace Label

def ofTerminal (t : Terminal) : Label := .symbol (.terminal t)

/-- Whether the node is seen by a reader of the tree. -/
def isVisible : Label → Bool
  | .symbol (.terminal t) => t.isVisible
  | .symbol (.category c) => c.isVisible
  | .error => true
  | .skipped | .endOfInput => false

/-- An order on labels: tokens before phrases. -/
def code : Label → Nat
  | .symbol s => s.code
  | _ => 0

/-- Nodes that hold text that does not fit. -/
def isFault : Label → Bool
  | .error | .skipped => true
  | .symbol _ | .endOfInput => false

end Label

/-- What is known of a tree without looking at its children. -/
structure Facts where
  label : Label
  /-- The production that a phrase was built with. -/
  production : Option Nat := none
  /-- Where the white space before the tree begins. -/
  before : Place
  start : Place
  stop : Place
  /-- Comments and errors do not count as parts of the phrase around them. -/
  extra : Bool := false
  missing : Bool := false
  /-- The text spells a keyword. -/
  keyword : Bool := false
  cost : Nat := 0
  weight : Int := 0
  /-- Visible nodes below this one. -/
  descendants : Nat := 0
  /-- Visible nodes directly below this one, those of hidden children included. -/
  shown : Nat := 0
deriving Inhabited

/-- A syntax tree. -/
inductive Tree where
  | node (facts : Facts) (children : List Tree)

namespace Tree

instance : Inhabited Tree := ⟨.node default []⟩

def facts : Tree → Facts
  | .node f _ => f

def children : Tree → List Tree
  | .node _ cs => cs

def isVisible (t : Tree) : Bool := t.facts.label.isVisible

/-! ## Costs -/

/-- The cost of every stretch that does not fit, and of every missing token. -/
def faultCost : Nat := 500

/-- The further cost of a missing token. -/
def missingCost : Nat := 110

/-- The further cost of each node in a stretch that does not fit. -/
def skippedNodeCost : Nat := 100

/-- The further cost of each line break in a stretch that does not fit. -/
def skippedLineCost : Nat := 30

/-- The further cost of the text between two places: one for each byte, more for line breaks. -/
def textCost (p q : Place) : Nat := (q.offset - p.offset) + skippedLineCost * (q.row - p.row)

/-! ## Building trees -/

/-- A token, or the end of the input. -/
def leaf (label : Label) (before start stop : Place) : Tree :=
  .node { label, before, start, stop, extra := label == .endOfInput } []

/-- A token that is absent at a place. -/
def absent (t : Terminal) (p : Place) : Tree :=
  .node { label := .ofTerminal t, before := p, start := p, stop := p, missing := true,
          cost := faultCost + missingCost } []

/-- What the child `t` adds to the cost of a stretch that does not fit. -/
def skippingCost (t : Tree) : Nat :=
  let f := t.facts
  if f.extra || (f.label == .error && t.children.isEmpty) then 0
  else if t.isVisible then skippedNodeCost
  else if t.children.isEmpty then 0
  else skippedNodeCost * f.shown

/-- The tree with the given children; `here` is its place if it has none. -/
def build (label : Label) (production : Option Nat) (here : Place) (children : List Tree) : Tree :=
  let before := (children.head?.map (·.facts.before)).getD here
  let start := (children.head?.map (·.facts.start)).getD here
  let stop := (children.getLast?.map (·.facts.stop)).getD here
  let own := if label.isFault then faultCost + textCost start stop else 0
  let cost := children.foldl (fun n c =>
    n + (if c.facts.label == .skipped then 0 else c.facts.cost)
      + (if label.isFault then c.skippingCost else 0)) own
  .node
    { label, production, before, start, stop, cost
      weight := children.foldl (fun w c => w + c.facts.weight) 0
      descendants := children.foldl (fun n c =>
        n + c.facts.descendants + (if c.isVisible then 1 else 0)) 0
      shown := children.foldl (fun n c =>
        n + (if c.isVisible then 1 else if c.children.isEmpty then 0 else c.facts.shown)) 0 }
    children

/-- Adds to the weight of a tree. -/
def addWeight (w : Int) : Tree → Tree
  | .node f cs => .node { f with weight := f.weight + w } cs

/-- Marks a tree as no part of the phrase around it. -/
def asExtra : Tree → Tree
  | .node f cs => .node { f with extra := true } cs

/-- Comments are no part of the phrase around them. -/
def commentAsExtra (t : Tree) : Tree :=
  if t.facts.label == Label.ofTerminal .comment then t.asExtra else t

/-- How many nodes a tree counts for when progress is measured. -/
def count (t : Tree) : Nat :=
  t.facts.descendants + (if t.isVisible then 1 else 0)
    + (if t.facts.label == .skipped then 1 else 0)

/-! ## Choosing between trees -/

mutual

/-- Compares trees by their labels and numbers of children, from the top and from the left. -/
def compare : Tree → Tree → Ordering
  | .node f cs, .node g ds =>
    (Ord.compare f.label.code g.label.code).then
      ((Ord.compare cs.length ds.length).then (compareAll cs ds))

/-- Compares lists of trees from the left, as far as both of them go. -/
def compareAll : List Tree → List Tree → Ordering
  | c :: cs, d :: ds => (compare c d).then (compareAll cs ds)
  | _, _ => .eq

end

/-- Whether the second of two readings of a text is to be preferred: a smaller cost, then a larger
weight, then the smaller tree. -/
def prefersSecond (s t : Tree) : Bool :=
  if t.facts.cost != s.facts.cost then t.facts.cost < s.facts.cost
  else if t.facts.weight != s.facts.weight then s.facts.weight < t.facts.weight
  else if s.facts.cost != 0 then true
  else s.compare t == .gt

/-- Whether two trees can stand for each other: the same symbol over the same text, or both with
faults. -/
def equivalent (s t : Tree) : Bool :=
  let f := s.facts
  let g := t.facts
  f.label == g.label
    && (0 < f.cost && 0 < g.cost
      || f.before.offset == g.before.offset && f.start.offset == g.start.offset
        && f.stop.offset == g.stop.offset && s.children.length == t.children.length
        && f.extra == g.extra)

/-- Splits off the comments and errors at the end of a list of trees. -/
def splitTrailing (trees : List Tree) : List Tree × List Tree :=
  let trailing := (trees.reverse.takeWhile (·.facts.extra)).reverse
  (trees.take (trees.length - trailing.length), trailing)

/-- Makes one tree of several: the last one that is not a comment or an error takes the others in. -/
def spliceLast? (trees : List Tree) : Option Tree :=
  let split := splitTrailing trees
  split.1.getLast?.map fun t =>
    build t.facts.label t.facts.production t.facts.before
      (split.1.dropLast ++ t.children ++ split.2)

end Tree

end SpanIndex.Syntax
