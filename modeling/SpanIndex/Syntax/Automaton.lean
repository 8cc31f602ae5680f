import SpanIndex.Syntax.Grammar

/-!
# Reading states

While a text is read from left to right, a `State` holds the productions that are under way. An
`Item` is a production with a mark between what has been read and what is still to come, and each
item of a state comes with the tokens that may follow the whole production there.

States are computed when they are needed. `State.advance` moves over one symbol, `State.actions`
says what can be done in front of a token. Where a production could end or go on, precedence
decides (`resolve`); if it does not, both ways are kept.
-/

namespace SpanIndex.Syntax

/-! ## Facts about the grammar

What depends on the grammar alone is worked out once. Sets of phrases are written as bits of a number,
bit `Category.index c` standing for `c`. -/

namespace Grammar

/-- The productions, by their number. -/
def productionTable : Array Production := productions.toArray

/-- The production with a given number. -/
def production (p : Nat) : Production := productionTable.getD p default

/-- The number of the production that stands for a whole file. -/
def goalProduction : Nat := productionTable.size - 1

/-- The first symbol of each production, if it has any. -/
def beginnings : List (Nat × Option Nat) :=
  productions.zipIdx.map fun (p, i) => (i, p.first?.map Symbol.code)

/-- The productions without symbols. -/
def emptyProductions : List Nat :=
  (beginnings.filter fun (_, first) => first.isNone).map (·.1)

def leadingTable : Array (List Nat) :=
  ((List.range (Terminal.codeCount + Category.all.length)).map fun code =>
    (beginnings.filter fun (_, first) => first == some code).map (·.1)).toArray

/-- The productions that begin with a symbol. -/
def leading (s : Symbol) : List Nat := leadingTable.getD s.code []

/-- A phrase at the beginning of a production, and what follows it there. -/
structure LeftEdge where
  head : Category
  part : Category
  next : Option Symbol

/-- The phrases at the beginning of the productions of `c`. -/
def leftEdgesOf (c : Category) : List LeftEdge :=
  ((definitions c).flatMap fun d => d.content.alternatives).filterMap fun a =>
    match a.steps with
    | ⟨.category b, _, _⟩ :: rest => some ⟨c, b, rest.head?.map Step.symbol⟩
    | _ => none

/-- The tokens at the beginning of the productions of `c`. -/
def leftTokensOf (c : Category) : Expectation :=
  ((definitions c).flatMap fun d => d.content.alternatives).foldl (fun e a =>
    match a.steps with
    | ⟨.terminal t, _, _⟩ :: _ => e ||| Expectation.ofTerminal t
    | _ => e) 0

def leftEdges : List LeftEdge := Category.all.flatMap leftEdgesOf

/-- The phrases that can be reached from the pending ones along the edges, those in `seen` included.
Every pending phrase costs a unit of fuel. -/
def reach (edges : Array (List Category)) : Nat → List Category → Nat → Nat
  | 0, _, seen => seen
  | _, [], seen => seen
  | fuel + 1, c :: pending, seen =>
    if seen.testBit c.index then reach edges fuel pending seen
    else reach edges fuel (edges.getD c.index [] ++ pending) (seen ||| 1 <<< c.index)

/-- More than the number of edges. -/
def reachFuel : Nat := 4096

/-- For each phrase, those that can stand at its left edge. -/
def leftReach : List Nat :=
  let edges := (Category.all.map fun c => (leftEdgesOf c).map LeftEdge.part).toArray
  Category.all.map fun c => reach edges reachFuel [c] 0

/-- For each phrase, those that it can consist of alone. -/
def unitReach : List Nat :=
  let edges := (Category.all.map fun c =>
    ((leftEdgesOf c).filter fun e => e.next.isNone).map LeftEdge.part).toArray
  Category.all.map fun c => reach edges reachFuel [c] 0

def firstTable : Array Expectation :=
  let tokens := Category.all.map fun c => (c.index, leftTokensOf c)
  (leftReach.map fun set =>
    tokens.foldl (fun e (i, own) => if set.testBit i then e ||| own else e) 0).toArray

/-- The tokens that a symbol can begin with. -/
def firsts : Symbol → Expectation
  | .terminal t => Expectation.ofTerminal t
  | .category c => firstTable.getD c.index 0

/-- For each phrase, the heads of longer productions that begin with it, each with the tokens that can
follow the phrase there. -/
def followers : List (List (Nat × Expectation)) :=
  Category.all.map fun c => leftEdges.filterMap fun e =>
    match e.next with
    | some s => if e.part == c then some (e.head.index, firsts s) else none
    | none => none

/-- What the left edge of a phrase looks like, given the phrases that can stand there (`within`) and
those that it can consist of alone: each phrase has the tokens that can follow it within the first
one, and whether it can also end where that one ends. -/
def cornerRow (within alone : Nat) : List (Expectation × Bool) :=
  let seeds := (Category.all.zip (unitReach.zip followers)).filterMap fun (c, whole, after) =>
    if within.testBit c.index then
      some (whole, after.foldl (fun e (head, next) =>
        if within.testBit head then e ||| next else e) 0)
    else none
  Category.all.map fun c =>
    (seeds.foldl (fun e (whole, after) =>
      if whole.testBit c.index then e ||| after else e) 0, alone.testBit c.index)

def cornerTable : Array (List (Expectation × Bool)) :=
  (leftReach.zipWith cornerRow unitReach).toArray

/-- What the left edge of a phrase looks like. -/
def corner (c : Category) : List (Expectation × Bool) := cornerTable.getD c.index []

end Grammar

/-! ## Items -/

/-- A production and the number of its symbols that have been read. -/
structure Item where
  production : Nat
  dot : Nat
deriving DecidableEq, Inhabited

namespace Item

/-- The production of an item. -/
def rule (i : Item) : Production := Grammar.production i.production

/-- The symbol that must come next; none if the production is complete. -/
def next? (i : Item) : Option Symbol := (i.rule.steps[i.dot]?).map (·.symbol)

/-- The symbol after the next one. -/
def afterNext? (i : Item) : Option Symbol := (i.rule.steps[i.dot + 1]?).map (·.symbol)

/-- The item after its next symbol has been read. -/
def step (i : Item) : Item := ⟨i.production, i.dot + 1⟩

end Item

/-! ## States -/

/-- The items under way, the tokens that can follow each phrase at the mark, and the tokens that can
come next. The last two are determined by the first. -/
structure State where
  items : List (Item × Expectation)
  follow : Array Expectation
  expected : Expectation
deriving Inhabited

/-- States are the same if their items are. -/
instance : BEq State := ⟨fun s t => s.items == t.items⟩

namespace State

/-- What can follow each phrase that may begin at the mark. -/
def closure (items : List (Item × Expectation)) : List Expectation :=
  items.foldl (fun row (i, after) =>
    match i.next? with
    | some (.category c) =>
      let tail := match i.afterNext? with
        | some s => Grammar.firsts s
        | none => after
      row.zipWith (fun e (tokens, atEnd) => e ||| tokens ||| (if atEnd then tail else 0))
        (Grammar.corner c)
    | _ => row) (Category.all.map fun _ => 0)

/-- The state with the given items. -/
def ofItems (items : List (Item × Expectation)) : State :=
  let follow := (closure items).toArray
  let here := items.foldl (fun e (i, after) =>
    match i.next? with
    | some s => e ||| Grammar.firsts s
    | none => e ||| after) 0
  let expected := Grammar.emptyProductions.foldl (fun e p =>
    e ||| follow.getD (Grammar.production p).head.index 0) here
  { items, follow, expected }

/-- The state before anything has been read. -/
def start : State :=
  ofItems [(⟨Grammar.goalProduction, 0⟩, Expectation.ofEnd)]

/-- The items after the symbol `s` has been read: first those that were under way before it, then those
that begin with it. This order is the same however the state is reached, since items that have got
further always come first. -/
def advancedItems (st : State) (s : Symbol) : List (Item × Expectation) :=
  let continued := st.items.filterMap fun (i, after) =>
    if i.next? == some s then some (i.step, after) else none
  let begun := (Grammar.leading s).filterMap fun p =>
    match st.follow.getD (Grammar.production p).head.index 0 with
    | 0 => none
    | after => some (⟨p, 1⟩, after)
  continued ++ begun

/-- The state after the symbol `s`, if it can come next. -/
def advance (st : State) (s : Symbol) : Option State :=
  match st.advancedItems s with
  | [] => none
  | items => some (ofItems items)

/-! ## Actions -/

/-- What can be done in front of a token. -/
inductive Action where
  /-- Read the token. -/
  | shift
  /-- Read the token into a repetition; only of use where a token has been lost. -/
  | shiftRepetition
  /-- Close a production. -/
  | reduce (production : Nat)
  /-- The file is complete. -/
  | accept
deriving DecidableEq, Inhabited

/-- The productions that can be closed in front of a token, those of the highest level only. -/
def closable (st : State) (l : Lookahead) : List Nat :=
  let complete := st.items.filterMap fun (i, after) =>
    if i.next?.isNone && after.allows l then some i.production else none
  let empty := Grammar.emptyProductions.filter fun p =>
    Expectation.allows (st.follow.getD (Grammar.production p).head.index 0) l
  let all := complete ++ empty
  let level p := (Grammar.production p).level
  all.filter fun p => all.all fun q => decide (level q ≤ level p)

/-- Whether the token `t` can be read. -/
def shiftable (st : State) (t : Terminal) : Bool :=
  st.items.any fun (i, _) =>
    match i.next? with
    | some s => (Grammar.firsts s).has t
    | none => false

/-- Decides between reading the token `t` and closing the productions `closing`. A higher level
wins; between equal levels, left associative productions are closed and right associative ones go
on. In a repetition the shorter part is closed first. -/
def resolve (st : State) (t : Terminal) (closing : List Nat) : List Action :=
  let rule p := Grammar.production p
  let reduces := closing.map Action.reduce
  let continuing := st.items.filter fun (i, _) =>
    i.dot != 0 && match i.next? with
      | some s => (Grammar.firsts s).has t
      | none => false
  let ending := st.items.filter fun (i, after) => i.next?.isNone && after.has t
  let heads := (continuing ++ ending).map fun (i, _) => i.rule.head
  let inRepetition := match heads with
    | [] => false
    | h :: hs => h.isRepetition && hs.all (· == h)
  if inRepetition then reduces ++ [.shiftRepetition]
  else
    let level := (closing.head?.map fun p => (rule p).level).getD 0
    let higher := continuing.any fun (i, _) => decide (level < i.rule.level)
    let lower := continuing.any fun (i, _) => decide (i.rule.level < level)
    let assocs := closing.map fun p => (rule p).assoc
    if higher && !lower then [.shift]
    else if lower && !higher then reduces
    else if !higher && !lower && assocs.all (· == some .left) then reduces
    else if !higher && !lower && assocs.all (· == some .right) then [.shift]
    else reduces ++ [.shift]

/-- What can be done in front of a token, or of the end of the text. Closing comes before reading on. -/
def actions (st : State) (l : Lookahead) : List Action :=
  let closing := st.closable l
  match l with
  | none =>
    if closing.any fun p => (Grammar.production p).head == .goal then [.accept]
    else closing.map .reduce
  | some t =>
    if st.shiftable t then
      if closing.isEmpty then [.shift] else st.resolve t closing
    else closing.map .reduce

end State

end SpanIndex.Syntax
