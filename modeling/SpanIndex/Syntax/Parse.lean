import SpanIndex.Syntax.Recovery

/-!
# Reading a text

`parse` turns a text into a syntax tree, whatever the text is. Every branch reads one token in turn;
after each round the branches are compared (`Reading.condense`), and those that are worse than others
are dropped. The tree of the best branch that comes to the end of the text is the result.
-/

namespace SpanIndex.Syntax

namespace Reading

/-! ## One token -/

/-- The token at a place, as a tree. Where nothing that is expected can be read, any token will do;
characters that belong to no token are an error. -/
def tokenAt (state : Option State) (p : Place) : Tree :=
  let expected := (state.map fun st => st.expected).getD Mode.lost.sought
  let token := Token.scan (Mode.ofExpectation expected) p
  let token := if token.found.isSome then token else Token.scan .lost p
  match token.found with
  | none =>
    Tree.leaf .error p token.start (Token.skipUnreadable token.start token.start.rest)
  | some none => Tree.leaf .endOfInput p token.start token.stop
  | some (some .identifier) =>
    match Token.keyword? (token.start.textTo token.stop) with
    | none => Tree.leaf (.ofTerminal .identifier) p token.start token.stop
    | some t =>
      let isKeyword := expected.has t || Token.isReservedIn expected t
      .node
        { label := .ofTerminal (if isKeyword then t else .identifier)
          before := p
          start := token.start
          stop := token.stop
          keyword := true } []
  | some (some t) => Tree.leaf (.ofTerminal t) p token.start token.stop

/-- The same word as an identifier. -/
def asIdentifier : Tree → Tree
  | .node f cs => .node { f with label := .ofTerminal .identifier } cs

/-- The state behind a token, if it leads to one. -/
def stateAfter (st : State) (token : Tree) : Option State :=
  match token.facts.label with
  | .symbol s => st.advance s
  | _ => none

/-- Puts a token on top of the branch `v`, which is in the state `st`. -/
def shift (r : Reading) (v : Nat) (st : State) (token : Tree) : Reading :=
  match stateAfter st token with
  | some next => r.push v (some token) (some next)
  | none => r.setStatus v .halted

/-- Whether a keyword that does not fit can be read as an identifier instead. -/
def canBeIdentifier (st : State) (token : Tree) : Bool :=
  match token.facts.label with
  | .symbol (.terminal t) =>
    token.facts.keyword && t != .identifier && !Token.isReservedIn st.expected t
      && !(st.actions (some .identifier)).isEmpty
  | _ => false

/-- Closes the production of an action on the branch `v`. The second part is the last branch that has
arisen so. -/
def closeBy (v : Nat) (found : Reading × Option Nat) : State.Action → Reading × Option Nat
  | .reduce p =>
    let new := found.1.reduceNew v p
    (new.1, new.2 <|> found.2)
  | _ => found

/-- Lets the branch `v` close productions in front of a token until it can read it. If it cannot, it
is paused. Where there is a choice, new branches arise. -/
def readToken (v : Nat) : Nat → Tree → Reading → Reading
  | 0, _, r => r.setStatus v .halted
  | fuel + 1, token, r =>
    match r.state v with
    | none => r.recover v token
    | some st =>
      let label := token.facts.label
      if label == Label.ofTerminal .comment then r.push v (some token.asExtra) (some st)
      else
        let actions := actionsAt st label
        if actions.contains .accept then r.accept v token
        else
          let found := actions.foldl (closeBy v) (r, none)
          if actions.contains .shift then found.1.shift v st token
          else match found.2 with
            | some w => readToken v fuel token (found.1.replaceBranch w v)
            | none =>
              if actions.any fun a => a != .shiftRepetition then found.1.setStatus v .halted
              else if canBeIdentifier st token then readToken v fuel (asIdentifier token) found.1
              else found.1.setStatus v (.paused token)

/-- Lets the branch `v` read the next token. -/
def readNext (v : Nat) (r : Reading) : Reading :=
  readToken v r.closingFuel (tokenAt (r.state v) (r.place v)) r

/-! ## One round -/

/-- Lets every branch read on until it has got as far as the one before it. -/
def readRound : Nat → Nat → Reading → Reading
  | 0, _, r => r
  | fuel + 1, v, r =>
    if r.size ≤ v then r
    else if r.isActive v then
      let r := r.readNext v
      let here := (r.place v).offset
      if v < r.size && (r.furthest < here || (0 < v && here == r.furthest)) then
        readRound fuel (v + 1) { r with furthest := here }
      else readRound fuel v r
    else readRound fuel (v + 1) r

/-- Compares the branch `v`, whose standing is `s`, with those before it, from `w` on. A better branch
changes places with a worse one, and the comparison goes on from there. The result holds the position
at which a branch is left, and whether one is. -/
def compareWithEarlier (s : Standing) : Nat → Nat → Nat → Reading → Reading × Nat × Bool
  | 0, _, v, r => (r, v, true)
  | fuel + 1, w, v, r =>
    if v ≤ w then (r, v, true)
    else match (r.standing w).compare s with
      | .takeFirst => (r.removeBranch v, v, false)
      | .preferFirst | .undecided =>
        match r.merge? w v with
        | some r => (r, v, false)
        | none => compareWithEarlier s fuel (w + 1) v r
      | .preferSecond =>
        match r.merge? w v with
        | some r => (r, v, false)
        | none =>
          let a := r.branch w
          let b := r.branch v
          compareWithEarlier s fuel (w + 1) v ((r.setBranch w b).setBranch v a)
      | .takeSecond => compareWithEarlier s fuel w (v - 1) (r.removeBranch w)

/-- Drops halted branches and those that are clearly worse than others, and brings the better ones
to the front. Also returns the least cost of a branch that is not in error. -/
def prune : Nat → Nat → Option Nat → Reading → Reading × Option Nat
  | 0, _, best, r => (r, best)
  | fuel + 1, v, best, r =>
    if r.size ≤ v then (r, best)
    else if (r.branch v).status.isHalted then prune fuel v best (r.removeBranch v)
    else
      let s := r.standing v
      let best := if s.inError then best else some (min s.cost (best.getD s.cost))
      let compared := compareWithEarlier s (r.size + 1) 0 v r
      prune fuel (if compared.2.2 then compared.2.1 + 1 else compared.2.1) best compared.1

/-- Of the paused branches only the first is resumed, and only if no branch before it goes on. -/
def resume : Nat → Nat → Bool → Option Nat → Reading → Reading × Option Nat
  | 0, _, _, best, r => (r, best)
  | fuel + 1, v, running, best, r =>
    if r.size ≤ v then (r, best)
    else match (r.branch v).status with
      | .paused token =>
        if !running && r.finishedCount < maxBranches then
          let cost := r.cost v
          let older := r.size
          let r := (r.setStatus v .active).handleError v token
          -- branches that have just arisen are left alone
          let later := (r.branches.take older).drop (v + 1)
          let branches := r.branches.take (v + 1)
            ++ later.filter (fun b => !b.status.isPaused) ++ r.branches.drop older
          ({ r with branches }, some cost)
        else resume fuel v running best (r.removeBranch v)
      | _ => resume fuel (v + 1) true best r

/-- Prepares the next round. -/
def condense (r : Reading) : Reading × Option Nat :=
  let pruned := prune (2 * r.size + 2) 0 none r
  let r := { pruned.1 with branches := pruned.1.branches.take maxBranches }
  resume (r.size + 1) 0 false pruned.2 r

/-- Whether a finished tree is better than all branches, of which the best has the given cost. -/
def isSettled (t : Tree) : Option Nat → Bool
  | some cost => decide (t.facts.cost < cost)
  | none => true

/-- Round after round, until a finished tree is better than what can still come. -/
def readAll : Nat → Reading → Option Tree
  | 0, r => r.finished
  | fuel + 1, r =>
    let round := (readRound (64 * (r.size + 4)) 0 r).condense
    match round.1.finished with
    | some t =>
      if round.1.size == 0 || isSettled t round.2 then some t else readAll fuel round.1
    | none => if round.1.size == 0 then none else readAll fuel round.1

end Reading

/-- More than the rounds that a text can take. White space at the beginning is passed over with the first
token and takes none. -/
def roundFuel (text : List Char) : Nat := 8 * (text.dropWhile Text.isSpace).length + 64

/-- The syntax tree of a text. -/
def parse (text : List Char) : Tree :=
  ((Reading.start text).readAll (roundFuel text)).getD
    (Tree.leaf .error (Place.start text) (Place.start text) (Place.start text))

end SpanIndex.Syntax
