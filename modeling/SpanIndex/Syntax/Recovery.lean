import SpanIndex.Syntax.Stack
import SpanIndex.Syntax.Token

/-!
# Going on after a syntax error

A token that fits no branch is dealt with in three ways, which are followed side by side:

* a token is supplied in front of it, if that closes a production (`supplyMissing`);
* the reader goes back to an earlier state in which the token fits, and what was read since becomes
  an error node (`returnTo`);
* the token is skipped, and the reader stays lost.

Costs decide which of them survives. A branch is given up for another one if its cost is larger by so
much that the progress of the other one outweighs it (`Standing.compare`).
-/

namespace SpanIndex.Syntax

/-! ## Comparing branches -/

/-- How well a branch does. -/
structure Standing where
  cost : Nat
  /-- Nodes read since the last error. -/
  progress : Nat
  weight : Int
  inError : Bool

inductive Verdict where
  | takeFirst | preferFirst | undecided | preferSecond | takeSecond
deriving DecidableEq

/-- A difference in cost above this, scaled by the progress made, ends the comparison. -/
def maxCostDifference : Nat := 1800

def Standing.compare (a b : Standing) : Verdict :=
  if !a.inError && b.inError then
    if a.cost < b.cost then .takeFirst else .preferFirst
  else if a.inError && !b.inError then
    if b.cost < a.cost then .takeSecond else .preferSecond
  else if a.cost < b.cost then
    if maxCostDifference < (b.cost - a.cost) * (1 + a.progress) then .takeFirst else .preferFirst
  else if b.cost < a.cost then
    if maxCostDifference < (a.cost - b.cost) * (1 + b.progress) then .takeSecond
    else .preferSecond
  else if b.weight < a.weight then .preferFirst
  else if a.weight < b.weight then .preferSecond
  else .undecided

namespace Reading

/-- Nodes read since the last error. -/
def progress (r : Reading) (v : Nat) : Nat := (r.top v).count - (r.branch v).countAtError

/-- The cost of a branch. One that has just run into an error pays for it in advance. -/
def cost (r : Reading) (v : Nat) : Nat :=
  let f := r.top v
  let pending := (r.branch v).status.isPaused ||
    (f.state.isNone && (f.links.head?.map (·.tree.isNone)).getD false)
  f.cost + (if pending then Tree.faultCost else 0)

def standing (r : Reading) (v : Nat) : Standing :=
  let paused := (r.branch v).status.isPaused
  { cost := r.cost v + (if paused then Tree.skippedNodeCost else 0)
    progress := r.progress v
    weight := (r.top v).weight
    inError := paused || (r.state v).isNone }

/-- Whether going on with the branch `v` at the given cost is worse than what is there already. -/
def hasBetter (r : Reading) (v cost : Nat) : Bool :=
  let s : Standing := ⟨cost, r.progress v, (r.top v).weight, false⟩
  (match r.finished with
    | some t => decide (t.facts.cost ≤ cost)
    | none => false)
  || (List.range r.size).any fun w =>
    w != v && r.isActive w && decide ((r.place v).offset ≤ (r.place w).offset)
      && match s.compare (r.standing w) with
        | .takeSecond => true
        | .preferSecond => r.canMerge w v
        | _ => false

/-! ## Closing whatever can be closed -/

/-- The actions of a state in front of a tree. An error fits nowhere. -/
def actionsAt (st : State) : Label → List State.Action
  | .symbol (.terminal t) => st.actions (some t)
  | .endOfInput => st.actions none
  | _ => []

/-- Adds the production that an action closes to those found so far, one for each phrase and length.
Productions without symbols are left out. -/
def addClosing (found : List Nat) : State.Action → List Nat
  | .reduce p =>
    let rule := Grammar.production p
    if rule.steps.isEmpty || found.any (fun q =>
        let other := Grammar.production q
        other.head == rule.head && other.steps.size == rule.steps.size) then found
    else found ++ [p]
  | _ => found

/-- The productions that a state can close, one for each phrase and length, and whether it can read
a token. In front of the end of the input, and where no label is given, every token is considered. -/
def possibleSteps (st : State) (label : Option Label) : List Nat × Bool :=
  let tokens := match label with
    | some (.symbol (.terminal t)) => [t]
    | some .error | some .skipped => []
    | _ => Terminal.all
  let actions := tokens.flatMap fun t => st.actions (some t)
  (actions.foldl addClosing [], actions.any (· == .shift))

/-- What the branch `v` can do in front of the label; nothing if it is lost. -/
def stepsAt (r : Reading) (v : Nat) (label : Option Label) : List Nat × Bool :=
  match r.state v with
  | some st => possibleSteps st label
  | none => ([], false)

/-- Closes productions on the branch `first`, and on those that arise from it, in all possible ways.
With a label only steps in front of it count, and branches that cannot go on are removed. The second
part of the result says whether a token can be read in the end. -/
def closeAll (label : Option Label) (first older : Nat) :
    Nat → Nat → Nat → Bool → Reading → Reading × Bool
  | 0, _, _, canRead, r => (r, canRead)
  | fuel + 1, v, round, canRead, r =>
    if r.size ≤ v then (r, canRead)
    else match r.mergeFirst? ((List.range v).filter fun w => decide (older ≤ w)) v with
      | some r => closeAll label first older fuel v (round + 1) canRead r
      | none =>
        let steps := r.stepsAt v label
        let found := steps.1.foldl (fun found p => found.1.reduceNew v p) (r, none)
        let next := if v == first then r.size else v + 1
        if steps.2 then closeAll label first older fuel next (round + 1) true found.1
        else match found.2 with
          | some w =>
            if round < maxBranches then
              closeAll label first older fuel v (round + 1) canRead (found.1.replaceBranch w v)
            else
              closeAll label first older fuel next (round + 1) canRead (dropUnless label v found.1)
          | none =>
            closeAll label first older fuel next (round + 1) canRead (dropUnless label v found.1)
where
  /-- Removes a branch that cannot read the label. -/
  dropUnless (label : Option Label) (v : Nat) (r : Reading) : Reading :=
    match label with
    | none | some .endOfInput => r
    | some _ => r.removeBranch v

/-- More than the rounds that closing productions can take. -/
def closingFuel (r : Reading) : Nat := 4 * r.frames.size + 256

/-! ## Supplying a token -/

/-- Tries to supply one of the tokens on a copy of the branch `v`. The first one is taken after which a
production can be closed in front of the lookahead, so that the lookahead can be read in the end. The
second part of the result says whether there was one. -/
def supplyMissing (v : Nat) (st : State) (lookahead : Tree) :
    List Terminal → Reading → Reading × Bool
  | [], r => (r, false)
  | t :: ts, r =>
    let canRead := match (st.actions (some t)).getLast? with
      | some .shift | some .shiftRepetition => true
      | _ => false
    match (if canRead then st.advance (.terminal t) else none) with
    | none => supplyMissing v st lookahead ts r
    | some next =>
      match next == st, (actionsAt next lookahead.facts.label).head? with
      | false, some (.reduce _) =>
        let w := r.size
        let r := r.addBranch { r.branch v with waypoints := none }
        let r := r.push w (some (Tree.absent t (r.place v))) (some next)
        match closeAll (some lookahead.facts.label) w r.size r.closingFuel w 0 false r with
        | (r, true) => (r, true)
        | (r, false) => supplyMissing v st lookahead ts r
      | _, _ => supplyMissing v st lookahead ts r

/-! ## Going back -/

/-- States further down than this are not gone back to. -/
def maxDepth : Nat := 16

/-- The states that the branch `v` has come through, each with the way back to it. -/
def waypoints (r : Reading) (v : Nat) : List Waypoint :=
  (r.walkFrom v (fun (acc : List Waypoint) p =>
    if maxDepth < p.depth then (acc, true)
    else
      let f := r.frame p.node
      let known := (acc.takeWhile fun w => decide (p.depth ≤ w.depth)).any fun w =>
        w.depth == p.depth && w.state == f.state
      (if known then acc else ⟨f.place, p.depth, f.state⟩ :: acc, false)) []).reverse

/-- Takes an error node off the top of the branch `v`, if there is one, and returns its parts. -/
def takeError (r : Reading) (v : Nat) : Reading × List Tree :=
  let isError (l : Link) := (l.tree.map (·.facts.label == .error)).getD false
  match (r.top v).links.find? isError with
  | some l =>
    (r.setBranch v { r.branch v with top := l.below }, (l.tree.map Tree.children).getD [])
  | none => (r, [])

/-- Puts trees on top of a branch as an error node, with the comments behind them next to it. -/
def pushError (r : Reading) (v : Nat) (trees : List Tree) (state : Option State) : Reading :=
  let split := Tree.splitTrailing trees
  let r := if split.1.isEmpty then r
    else r.push v (some (Tree.build .error none (r.place v) split.1).asExtra) state
  split.2.foldl (fun r t => r.push v (some t) state) r

/-- Nothing that a branch has read counts as progress beyond what is left of it. -/
def limitProgress (r : Reading) (v : Nat) : Reading :=
  let b := r.branch v
  r.setBranch v { b with countAtError := min b.countAtError (r.top v).count }

/-- Starts a new branch on the frame of a slice. The trees of the slice become an error node there. -/
def returnOn (v : Nat) (goal : Option State) (r : Reading) : Nat × List (List Tree) → Reading
  | (node, alternatives) =>
    let opened := (r.addBranch ⟨node, (r.branch v).countAtError, .active, none⟩).takeError r.size
    (opened.1.pushError r.size (opened.2 ++ alternatives.headD []) goal).limitProgress r.size

/-- Goes back on the branch `v` by `depth` trees to a frame in the state `goal`. -/
def returnTo (r : Reading) (v depth : Nat) (goal : Option State) : Option Reading :=
  match (r.slices v depth).filter fun slice => (r.frame slice.1).state == goal with
  | [] => none
  | targets => some (targets.foldl (returnOn v goal) r)

/-- Goes back to the first state in which the lookahead fits, as long as that does not cost too
much. -/
def tryWaypoints (r : Reading) (v : Nat) (lookahead : Tree) : List Waypoint → Option Reading
  | [] => none
  | w :: ws =>
    let here := r.place v
    match w.state with
    | none => tryWaypoints r v lookahead ws
    | some st =>
      if w.place.offset == here.offset ||
          (List.range r.size).any (fun u =>
            (r.place u).offset == here.offset && r.state u == some st) then
        tryWaypoints r v lookahead ws
      else if r.hasBetter v (r.cost v + Tree.skippedNodeCost * w.depth
          + Tree.textCost w.place here) then none
      else
        let fits := !(actionsAt st lookahead.facts.label).isEmpty
          || lookahead.facts.label == Label.ofTerminal .comment
        let depth := if r.progress v == 0 then w.depth else w.depth + 1
        match fits, r.returnTo v depth (some st) with
        | true, some r => some r
        | _, _ => tryWaypoints r v lookahead ws

/-! ## Finishing -/

/-- The better one of a tree and what was found before. -/
def betterTree (best : Option Tree) (t : Tree) : Option Tree :=
  match best with
  | none => some t
  | some s => if s.prefersSecond t then some t else some s

/-- Makes a file of a branch that has come to the end of the input. -/
def accept (r : Reading) (v : Nat) (lookahead : Tree) : Reading :=
  let r := r.push v (some lookahead) (some State.start)
  let roots := (r.allTrees v).filterMap Tree.spliceLast?
  let finished := roots.foldl betterTree r.finished
  { r with finished, finishedCount := r.finishedCount + roots.length }.setStatus v .halted

/-! ## Being lost -/

/-- Deals with a token while the branch `v` is lost: goes back to a state that it fits, and also
skips it if that is not hopeless. -/
def recover (r : Reading) (v : Nat) (lookahead : Tree) : Reading :=
  let cost := r.cost v
  let progress := r.progress v
  let back := if lookahead.facts.label == .error then none
    else r.tryWaypoints v lookahead ((r.branch v).waypoints.getD [])
  let r := back.getD r
  if lookahead.facts.label == .endOfInput then
    let r := r.push v (some (Tree.build .error none (r.place v) [])) (some State.start)
    r.accept v lookahead
  else if back.isSome && maxBranches < r.size then r.setStatus v .halted
  else if r.hasBetter v (cost + Tree.skippedNodeCost
      + Tree.textCost lookahead.facts.before lookahead.facts.stop) then
    r.setStatus v .halted
  else
    let skipped := Tree.build .skipped none (r.place v) [lookahead.commentAsExtra]
    match (if progress == 0 then none else (r.slices v 1).head?) with
    | none => r.push v (some skipped) none
    | some (node, alternatives) =>
      let b := r.branch v
      let r := r.setBranch v { b with top := node, status := .active }
      let trees := alternatives.headD [] ++ [skipped]
      r.push v (some (Tree.build .skipped none (r.place v) trees)) none

/-- If no token has been supplied yet, tries that on a copy of the branch `w`. -/
def trySupply (lookahead : Tree) (tried : Reading × Bool) (w : Nat) : Reading × Bool :=
  match tried.2, tried.1.state w with
  | false, some st =>
    supplyMissing w st lookahead (Terminal.all.filter fun t => st.expected.has t) tried.1
  | _, _ => tried

/-- Takes the state of the branch `w` away, after a last attempt to supply a token. -/
def loseState (lookahead : Tree) (tried : Reading × Bool) (w : Nat) : Reading × Bool :=
  let tried := trySupply lookahead tried w
  (tried.1.push w none none, tried.2)

/-- Starts to deal with a token that does not fit on the branch `v`. -/
def handleError (r : Reading) (v : Nat) (lookahead : Tree) : Reading :=
  let older := r.size
  let r := (closeAll none v older r.closingFuel v 0 false r).1
  let closed := v :: (List.range r.size).filter fun w => decide (older ≤ w)
  let r := (closed.foldl (loseState lookahead) (r, false)).1
  let r := (closed.drop 1).foldl (fun r _ => (r.merge? v older).getD r) r
  let r := r.setBranch v { r.branch v with waypoints := some (r.waypoints v) }
  r.recover v lookahead

end Reading

end SpanIndex.Syntax
