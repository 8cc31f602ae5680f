import SpanIndex.Syntax.Tree

/-!
# Several readings at once

Where the grammar leaves open how a text is to be read, all ways are followed side by side, each in a
`Branch`. What a branch has read so far is a chain of `Frame`s. Branches that fork share the frames
below the fork, and branches that arrive at the same state at the same place are merged: their top
frame then has several `Link`s downwards.

`Reading` holds the frames and branches of a text. Frames are referred to by their number.
-/

namespace SpanIndex.Syntax

/-- The way from a frame to the one below it. There is no tree where the text stopped to fit. -/
structure Link where
  below : Nat
  tree : Option Tree
deriving Inhabited

/-- A state that was reached, where, and at which cost. The state is absent while the reader is
lost after an error. -/
structure Frame where
  state : Option State
  place : Place
  links : List Link
  cost : Nat
  /-- Nodes read so far. -/
  count : Nat
  weight : Int
deriving Inhabited

/-- A state that a lost reader could go back to. -/
structure Waypoint where
  place : Place
  depth : Nat
  state : Option State

inductive Status where
  | active
  /-- The token did not fit; other branches may do better. -/
  | paused (lookahead : Tree)
  | halted

def Status.isActive : Status → Bool
  | .active => true
  | _ => false

def Status.isPaused : Status → Bool
  | .paused _ => true
  | _ => false

def Status.isHalted : Status → Bool
  | .halted => true
  | _ => false

/-- One of the readings that are followed. -/
structure Branch where
  top : Nat
  /-- Nodes that had been read at the last error. -/
  countAtError : Nat
  status : Status
  waypoints : Option (List Waypoint) := none

instance : Inhabited Branch := ⟨⟨0, 0, .halted, none⟩⟩

/-- The state of reading a text. -/
structure Reading where
  frames : Array Frame
  branches : List Branch
  /-- The best complete tree so far. -/
  finished : Option Tree := none
  /-- How many complete trees there were. -/
  finishedCount : Nat := 0
  /-- The furthest place that a branch has reached. -/
  furthest : Nat := 0

namespace Reading

/-- A reader in front of a text. -/
def start (text : List Char) : Reading :=
  { frames := #[⟨some State.start, Place.start text, [], 0, 0, 0⟩]
    branches := [⟨0, 0, .active, none⟩] }

def frame (r : Reading) (n : Nat) : Frame := r.frames.getD n default

def branch (r : Reading) (v : Nat) : Branch := r.branches.getD v default

/-- The frame on top of a branch. -/
def top (r : Reading) (v : Nat) : Frame := r.frame (r.branch v).top

def state (r : Reading) (v : Nat) : Option State := (r.top v).state

def place (r : Reading) (v : Nat) : Place := (r.top v).place

def size (r : Reading) : Nat := r.branches.length

def isActive (r : Reading) (v : Nat) : Bool := (r.branch v).status.isActive

def setBranch (r : Reading) (v : Nat) (b : Branch) : Reading :=
  { r with branches := r.branches.set v b }

def setStatus (r : Reading) (v : Nat) (s : Status) : Reading :=
  r.setBranch v { r.branch v with status := s }

def removeBranch (r : Reading) (v : Nat) : Reading :=
  { r with branches := r.branches.eraseIdx v }

def addBranch (r : Reading) (b : Branch) : Reading := { r with branches := r.branches ++ [b] }

def setFrame (r : Reading) (n : Nat) (f : Frame) : Reading :=
  { r with frames := r.frames.setIfInBounds n f }

/-! ## Going up and down -/

/-- Puts a tree on top of a branch. -/
def push (r : Reading) (v : Nat) (tree : Option Tree) (state : Option State) : Reading :=
  let b := r.branch v
  let below := r.frame b.top
  let frame : Frame := match tree with
    | none => { below with state, links := [⟨b.top, none⟩] }
    | some t =>
      { state
        place := t.facts.stop
        links := [⟨b.top, some t⟩]
        cost := below.cost + t.facts.cost
        count := below.count + t.count
        weight := below.weight + t.facts.weight }
  let b := { b with
    top := r.frames.size
    countAtError := if tree.isNone then frame.count else b.countAtError }
  { r with frames := r.frames.push frame }.setBranch v b

/-- A way down from the top of a branch: the frame it leads to, the trees on it from left to right,
and how many of them count. -/
structure Path where
  node : Nat
  trees : List Tree
  depth : Nat

def Path.follow (p : Path) (l : Link) : Path :=
  match l.tree with
  | none => ⟨l.below, p.trees, p.depth + 1⟩
  | some t => ⟨l.below, t :: p.trees, if t.facts.extra then p.depth else p.depth + 1⟩

/-- Looks at a path. The second part collects the paths that go on. -/
def visit {σ : Type} (look : σ → Path → σ × Bool) (seen : σ × List Path) (p : Path) :
    σ × List Path :=
  let (acc, stop) := look seen.1 p
  (acc, if stop then seen.2 else p :: seen.2)

/-- The paths that go on from the given ones: by the first links, then by the others. -/
def onward (frames : Array Frame) (paths : List Path) : List Path :=
  let links p := (frames.getD (Path.node p) default).links
  (paths.filterMap fun p => (links p).head?.map p.follow)
    ++ paths.flatMap fun p => ((links p).drop 1).map p.follow

/-- Follows all ways down from the given paths, one frame at a time. `look` sees each path and says
whether it ends there. -/
def walk {σ : Type} (frames : Array Frame) (look : σ → Path → σ × Bool) :
    Nat → List Path → σ → σ
  | 0, _, acc => acc
  | _, [], acc => acc
  | fuel + 1, paths, acc =>
    let (acc, going) := paths.foldl (visit look) (acc, [])
    walk frames look fuel (onward frames going.reverse) acc

/-- Ways down are never longer than the number of frames. -/
def walkFrom {σ : Type} (r : Reading) (v : Nat) (look : σ → Path → σ × Bool) (acc : σ) : σ :=
  walk r.frames look (r.frames.size + 1) [⟨(r.branch v).top, [], 0⟩] acc

/-- Adds the trees of a path to those of earlier paths to the same frame. -/
def addSlice (slices : List (Nat × List (List Tree))) (node : Nat) (trees : List Tree) :
    List (Nat × List (List Tree)) :=
  if slices.any (·.1 == node) then
    slices.map fun (n, alternatives) =>
      (n, if n == node then alternatives ++ [trees] else alternatives)
  else slices ++ [(node, [trees])]

/-- All ways to take `depth` trees off a branch, by the frame that is left. -/
def slices (r : Reading) (v depth : Nat) : List (Nat × List (List Tree)) :=
  r.walkFrom v (fun acc p =>
    if p.depth == depth then (addSlice acc p.node p.trees, true) else (acc, false)) []

/-- All ways to take all trees off a branch. -/
def allTrees (r : Reading) (v : Nat) : List (List Tree) :=
  r.walkFrom v (fun acc p =>
    if (r.frame p.node).links.isEmpty then (acc ++ [p.trees], true) else (acc, false)) []

/-! ## Merging -/

/-- Whether two frames are in the same state at the same place at the same cost. -/
def similar (f g : Frame) : Bool :=
  f.place.offset == g.place.offset && f.cost == g.cost && f.state == g.state

/-- A frame has at most this many links. -/
def maxLinks : Nat := 8

/-- Adds a link to the frame `n`. Of two links with equivalent trees to the same frame the one of
larger weight is kept; if the frames are merely similar, they are merged. -/
def addLink : Nat → Reading → Nat → Link → Reading
  | 0, r, _, _ => r
  | fuel + 1, r, n, link =>
    if link.below == n then r
    else
      let f := r.frame n
      let lower := r.frame link.below
      let added := (link.tree.map (·.facts.weight)).getD 0
      let fits (l : Link) : Bool :=
        (match l.tree, link.tree with
          | none, none => true
          | some s, some t => s.equivalent t
          | _, _ => false)
        && (l.below == link.below || similar (r.frame l.below) lower)
      match f.links.findIdx? fits with
      | some i =>
        let old := f.links.getD i default
        if old.below == link.below then
          if (old.tree.map (·.facts.weight)).getD 0 < added then
            r.setFrame n { f with links := f.links.set i link, weight := lower.weight + added }
          else r
        else
          let r := lower.links.foldl (fun r l => addLink fuel r old.below l) r
          let f := r.frame n
          r.setFrame n { f with weight := max f.weight (lower.weight + added) }
      | none =>
        if maxLinks ≤ f.links.length then r
        else
          let count := lower.count + (link.tree.map Tree.count).getD 0
          r.setFrame n
            { f with
              links := f.links ++ [link]
              count := max f.count count
              weight := max f.weight (lower.weight + added) }

def canMerge (r : Reading) (v w : Nat) : Bool :=
  r.isActive v && r.isActive w && similar (r.top v) (r.top w)

/-- Merges the branch `w` into `v`, if possible. -/
def merge? (r : Reading) (v w : Nat) : Option Reading :=
  if r.canMerge v w then
    let n := (r.branch v).top
    let merged := (r.top w).links.foldl (fun r l => addLink (r.frames.size + 1) r n l) r
    let b := merged.branch v
    let b := if (merged.frame n).state.isNone then
        { b with countAtError := (merged.frame n).count }
      else b
    some ((merged.setBranch v b).removeBranch w)
  else none

/-- Merges the branch `w` into the first of the branches `vs` that it fits. -/
def mergeFirst? (r : Reading) (vs : List Nat) (w : Nat) : Option Reading :=
  vs.findSome? fun v => r.merge? v w

/-- Puts the branch `v` in the place of `w`. -/
def replaceBranch (r : Reading) (v w : Nat) : Reading :=
  if v == w then r
  else
    let b := r.branch v
    let b := { b with waypoints := b.waypoints <|> (r.branch w).waypoints }
    (r.setBranch w b).removeBranch v

/-! ## Closing a production -/

/-- So many branches are followed at the end of a round. -/
def maxBranches : Nat := 6

/-- So many more may exist within a round. -/
def spareBranches : Nat := 4

/-- The preferred one of several phrases, with what follows it. -/
def choosePhrase (make : List Tree → Tree) :
    List (List Tree) → Option (Tree × List Tree) → Option (Tree × List Tree)
  | [], best => best
  | trees :: others, best =>
    let (inner, trailing) := Tree.splitTrailing trees
    let phrase := make inner
    let best := match best with
      | none => (phrase, trailing)
      | some (p, t) => if p.prefersSecond phrase then (phrase, trailing) else (p, t)
    choosePhrase make others (some best)

/-- Closes a production over the trees that lead down to a frame, on a new branch, unless that can be
merged with an older one. So many branches may be there besides those that are halted. -/
def closeSlice (v production halted : Nat) (r : Reading) :
    Nat × List (List Tree) → Reading
  | (node, alternatives) =>
    let rule := Grammar.production production
    let w := r.size
    if maxBranches + spareBranches + halted < w then r
    else
      let below := r.frame node
      let make := Tree.build (.symbol (.category rule.head)) (some production) below.place
      match choosePhrase make alternatives none,
          below.state.bind (·.advance (.category rule.head)) with
      | some (phrase, trailing), some next =>
        let r := r.addBranch ⟨node, (r.branch v).countAtError, .active, none⟩
        let r := r.push w (some (phrase.addWeight rule.weight)) (some next)
        let r := trailing.foldl (fun r t => r.push w (some t) (some next)) r
        (r.mergeFirst? ((List.range w).filter (· != v)) w).getD r
      | _, _ => r

/-- Closes a production on the branch `v`. Each way to take its symbols off the branch leads to a new
branch, unless that can be merged with an older one. The branch `v` itself is kept. -/
def reduce (r : Reading) (v production : Nat) : Reading :=
  let halted := r.branches.foldl (fun n b => if b.status.isHalted then n + 1 else n) 0
  (r.slices v (Grammar.production production).steps.size).foldl
    (closeSlice v production halted) r

/-- Closes a production on the branch `v`. The second part is the first branch that has arisen from
that, if there is one. -/
def reduceNew (r : Reading) (v production : Nat) : Reading × Option Nat :=
  let reduced := r.reduce v production
  (reduced, if r.size < reduced.size then some r.size else none)

end Reading

end SpanIndex.Syntax
