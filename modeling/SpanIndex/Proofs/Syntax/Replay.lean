import Mathlib.Data.List.InsertIdx
import SpanIndex.Proofs.Syntax.Linked
import SpanIndex.Proofs.Syntax.Raise

/-!
# Readings of a text with line breaks in front of it

`Reading.raise` takes a reading of the text with `k` line breaks in front of it to a reading of the text
itself: every place and every tree in it is replaced by the one it corresponds to. Frames and branches
keep their numbers. So whoever only changes branches, puts trees on them or follows links does the same on
both sides, whatever has been read.
-/

namespace SpanIndex.Syntax

def Link.raise (k : Nat) (l : Link) : Link := ⟨l.below, l.tree.map (Tree.raise k)⟩

def Frame.raise (k : Nat) (f : Frame) : Frame :=
  { f with place := f.place.raise k, links := f.links.map (Link.raise k) }

def Status.raise (k : Nat) : Status → Status
  | .active => .active
  | .paused lookahead => .paused (lookahead.raise k)
  | .halted => .halted

/-- As long as everything fits there are no waypoints. -/
def Branch.raise (k : Nat) (b : Branch) : Branch := { b with status := b.status.raise k }

theorem Link.weight_raise (k : Nat) (l : Link) :
    ((l.raise k).tree.map (·.facts.weight)).getD 0 = (l.tree.map (·.facts.weight)).getD 0 := by
  cases ht : l.tree <;> simp [Link.raise, ht, Facts.raise]

theorem Link.count_raise (k : Nat) (l : Link) :
    ((l.raise k).tree.map Tree.count).getD 0 = (l.tree.map Tree.count).getD 0 := by
  cases ht : l.tree <;> simp [Link.raise, ht]

theorem Frame.getD_links_raise (k : Nat) (f : Frame) (i : Nat) :
    (f.raise k).links.getD i default = (f.links.getD i default).raise k := by
  show (f.links.map (Link.raise k)).getD i default = _
  rw [List.getD_eq_getElem?_getD, List.getD_eq_getElem?_getD, List.getElem?_map]
  cases f.links[i]? <;> rfl

namespace Reading

/-- The reading of a text that corresponds to a reading of the text with `k` line breaks in front of it. -/
def raise (k : Nat) (r : Reading) : Reading where
  frames := r.frames.map (Frame.raise k)
  branches := r.branches.map (Branch.raise k)
  finished := r.finished.map (Tree.raise k)
  finishedCount := r.finishedCount
  furthest := r.furthest - k

variable {k n v w : Nat} {text : List Char} {r r' : Reading} {b : Branch} {f g : Frame} {st : Option State}

/-! ## Frames and branches -/

theorem raise_default (k : Nat) : (default : Frame).raise k = default := by
  have hplace : (default : Place).raise k = default := by
    show (⟨0 - k, 0 - k, 0 - k, [].drop (k - 0)⟩ : Place) = ⟨0, 0, 0, []⟩
    rw [Nat.zero_sub, List.drop_nil]
  show ({ (default : Frame) with place := (default : Place).raise k, links := [] } : Frame) = default
  rw [hplace]
  rfl

@[simp] theorem frame_raise (k : Nat) (r : Reading) (n : Nat) :
    (r.raise k).frame n = (r.frame n).raise k := by
  unfold frame raise
  rw [Array.getD_eq_getD_getElem?, Array.getD_eq_getD_getElem?, Array.getElem?_map]
  cases r.frames[n]? with
  | none => exact (raise_default k).symm
  | some f => rfl

@[simp] theorem branch_raise (k : Nat) (r : Reading) (v : Nat) :
    (r.raise k).branch v = (r.branch v).raise k := by
  unfold branch raise
  rw [List.getD_eq_getElem?_getD, List.getD_eq_getElem?_getD, List.getElem?_map]
  cases r.branches[v]? <;> rfl

@[simp] theorem size_raise (k : Nat) (r : Reading) : (r.raise k).size = r.size :=
  List.length_map _

@[simp] theorem top_raise (k : Nat) (r : Reading) (v : Nat) : (r.raise k).top v = (r.top v).raise k := by
  unfold top
  rw [branch_raise, frame_raise]
  rfl

@[simp] theorem state_raise (k : Nat) (r : Reading) (v : Nat) : (r.raise k).state v = r.state v := by
  unfold state
  rw [top_raise]
  rfl

@[simp] theorem place_raise (k : Nat) (r : Reading) (v : Nat) :
    (r.raise k).place v = (r.place v).raise k := by
  unfold place
  rw [top_raise]
  rfl

@[simp] theorem isActive_raise (k : Nat) (b : Branch) :
    (b.raise k).status.isActive = b.status.isActive := by
  cases b with
  | mk top count status ws => cases status <;> rfl

@[simp] theorem isPaused_raise (k : Nat) (b : Branch) :
    (b.raise k).status.isPaused = b.status.isPaused := by
  cases b with
  | mk top count status ws => cases status <;> rfl

@[simp] theorem isHalted_raise (k : Nat) (b : Branch) :
    (b.raise k).status.isHalted = b.status.isHalted := by
  cases b with
  | mk top count status ws => cases status <;> rfl

theorem setBranch_raise (k : Nat) (r : Reading) (v : Nat) (b : Branch) :
    (r.raise k).setBranch v (b.raise k) = (r.setBranch v b).raise k := by
  unfold setBranch raise
  simp only [List.map_set]

theorem setStatus_raise (k : Nat) (r : Reading) (v : Nat) (s : Status) :
    (r.raise k).setStatus v (s.raise k) = (r.setStatus v s).raise k := by
  unfold setStatus
  rw [branch_raise, ← setBranch_raise]
  rfl

theorem removeBranch_raise (k : Nat) (r : Reading) (v : Nat) :
    (r.raise k).removeBranch v = (r.removeBranch v).raise k := by
  unfold removeBranch raise
  simp only [List.eraseIdx_map]

theorem addBranch_raise (k : Nat) (r : Reading) (b : Branch) :
    (r.raise k).addBranch (b.raise k) = (r.addBranch b).raise k := by
  unfold addBranch raise
  simp only [List.map_append, List.map_cons, List.map_nil]

theorem setFrame_raise (k : Nat) (r : Reading) (n : Nat) (f : Frame) :
    (r.raise k).setFrame n (f.raise k) = (r.setFrame n f).raise k := by
  unfold setFrame raise
  simp only [Array.map_setIfInBounds]

theorem pushed_raise (k : Nat) (r : Reading) (v : Nat) (t : Option Tree) (st : Option State) :
    (r.raise k).pushed v (t.map (Tree.raise k)) st = (r.pushed v t st).raise k := by
  unfold pushed
  rw [top_raise, branch_raise]
  cases t with
  | none => rfl
  | some t => simp [Frame.raise, Link.raise, Branch.raise, Facts.raise]

theorem push_raise (k : Nat) (r : Reading) (v : Nat) (t : Option Tree) (st : Option State) :
    (r.raise k).push v (t.map (Tree.raise k)) st = (r.push v t st).raise k := by
  rw [push_eq, push_eq, ← setBranch_raise, pushed_raise, branch_raise, Option.isNone_map]
  unfold raise Branch.raise Frame.raise
  simp only [Array.map_push, Array.size_map]

/-! ## Ways down -/

def Path.raise (k : Nat) (p : Path) : Path := ⟨p.node, p.trees.map (Tree.raise k), p.depth⟩

theorem follow_raise (k : Nat) (p : Path) (l : Link) :
    (p.raise k).follow (l.raise k) = (p.follow l).raise k := by
  unfold Path.follow Link.raise
  cases l.tree with
  | none => rfl
  | some t => simp [Path.raise, Facts.raise]

theorem getD_raise (k : Nat) (frames : Array Frame) (n : Nat) :
    (frames.map (Frame.raise k)).getD n default = (frames.getD n default).raise k :=
  frame_raise k { frames, branches := [] } n

theorem onward_raise (k : Nat) (frames : Array Frame) (paths : List Path) :
    onward (frames.map (Frame.raise k)) (paths.map (Path.raise k))
      = (onward frames paths).map (Path.raise k) := by
  have hlinks : ∀ p : Path, ((frames.map (Frame.raise k)).getD (p.raise k).node default).links
      = ((frames.getD p.node default).links).map (Link.raise k) := by
    intro p
    rw [getD_raise]
    rfl
  have hfollow : ∀ p : Path, (p.raise k).follow ∘ Link.raise k = Path.raise k ∘ p.follow := fun p =>
    funext (follow_raise k p)
  unfold onward
  simp only [List.filterMap_map, List.flatMap_map, Function.comp_def, hlinks, List.head?_map,
    Option.map_map, List.map_append, List.map_filterMap, List.map_flatMap, List.map_drop, List.map_map,
    follow_raise]

section Walk

variable {σ σ' : Type} {g : σ → σ'} {look : σ → Path → σ × Bool} {look' : σ' → Path → σ' × Bool}

theorem foldl_visit_raise
    (hlook : ∀ acc p, look' (g acc) (p.raise k) = (g (look acc p).1, (look acc p).2)) :
    ∀ (paths : List Path) (seen : σ × List Path),
      (paths.map (Path.raise k)).foldl (visit look') (g seen.1, seen.2.map (Path.raise k))
        = (g (paths.foldl (visit look) seen).1,
          (paths.foldl (visit look) seen).2.map (Path.raise k)) := by
  intro paths
  induction paths with
  | nil => intro seen; rfl
  | cons p paths ih =>
    intro seen
    have hvisit : visit look' (g seen.1, seen.2.map (Path.raise k)) (p.raise k)
        = (g (visit look seen p).1, (visit look seen p).2.map (Path.raise k)) := by
      unfold visit
      rw [hlook]
      simp only
      split <;> rfl
    rw [List.map_cons, List.foldl_cons, List.foldl_cons, hvisit]
    exact ih _

/-- A walk over the corresponding frames takes the corresponding ways. -/
theorem walk_raise (hlook : ∀ acc p, look' (g acc) (p.raise k) = (g (look acc p).1, (look acc p).2))
    (frames : Array Frame) : ∀ (fuel : Nat) (paths : List Path) (acc : σ),
      walk (frames.map (Frame.raise k)) look' fuel (paths.map (Path.raise k)) (g acc)
        = g (walk frames look fuel paths acc) := by
  intro fuel
  induction fuel with
  | zero => intro paths acc; rw [walk, walk]
  | succ fuel ih =>
    intro paths acc
    cases paths with
    | nil => rw [List.map_nil, walk, walk] <;> simp
    | cons p paths =>
      have hvisit := foldl_visit_raise hlook (p :: paths) (acc, [])
      rw [List.map_nil] at hvisit
      rw [List.map_cons, walk, walk]
      · rw [← List.map_cons, hvisit]
        simp only
        rw [← List.map_reverse, onward_raise]
        exact ih _ _
      · simp
      · simp

end Walk

/-- The slice of the corresponding reading. -/
def raiseSlice (k : Nat) (s : Nat × List (List Tree)) : Nat × List (List Tree) :=
  (s.1, s.2.map (List.map (Tree.raise k)))

theorem addSlice_raise (k : Nat) (slices : List (Nat × List (List Tree))) (node : Nat)
    (trees : List Tree) :
    addSlice (slices.map (raiseSlice k)) node (trees.map (Tree.raise k))
      = (addSlice slices node trees).map (raiseSlice k) := by
  have hany : (slices.map (raiseSlice k)).any (·.1 == node) = slices.any (·.1 == node) := by
    rw [List.any_map]
    rfl
  unfold addSlice
  rw [hany]
  split
  · rw [List.map_map, List.map_map]
    refine List.map_congr_left fun s _ => ?_
    by_cases hs : s.1 = node <;> simp [raiseSlice, hs]
  · rw [List.map_append]
    rfl

theorem slices_raise (k : Nat) (r : Reading) (v depth : Nat) :
    (r.raise k).slices v depth = (r.slices v depth).map (raiseSlice k) := by
  have hsize : (r.raise k).frames.size = r.frames.size := Array.size_map
  unfold slices walkFrom
  rw [hsize, branch_raise]
  refine walk_raise (g := List.map (raiseSlice k)) ?_ r.frames _ [⟨(r.branch v).top, [], 0⟩] []
  intro acc p
  by_cases hd : p.depth = depth <;> simp [Path.raise, hd, addSlice_raise]

theorem allTrees_raise (k : Nat) (r : Reading) (v : Nat) :
    (r.raise k).allTrees v = (r.allTrees v).map (List.map (Tree.raise k)) := by
  have hsize : (r.raise k).frames.size = r.frames.size := Array.size_map
  unfold allTrees walkFrom
  rw [hsize, branch_raise]
  refine walk_raise (g := List.map (List.map (Tree.raise k))) ?_ r.frames _
    [⟨(r.branch v).top, [], 0⟩] []
  intro acc p
  have hlinks : ((r.raise k).frame (p.raise k).node).links.isEmpty = (r.frame p.node).links.isEmpty := by
    rw [frame_raise]
    exact List.isEmpty_map
  rw [hlinks]
  split
  · rw [List.map_append]
    rfl
  · rfl

theorem choosePhrase_raise {make make' : List Tree → Tree}
    (hmake : ∀ trees, make' (trees.map (Tree.raise k)) = (make trees).raise k) :
    ∀ (alternatives : List (List Tree)) (best : Option (Tree × List Tree)),
      choosePhrase make' (alternatives.map (List.map (Tree.raise k)))
          (best.map fun b => (b.1.raise k, b.2.map (Tree.raise k)))
        = (choosePhrase make alternatives best).map fun b => (b.1.raise k, b.2.map (Tree.raise k)) := by
  intro alternatives
  induction alternatives with
  | nil => intro best; rfl
  | cons trees others ih =>
    intro best
    rw [List.map_cons, choosePhrase, choosePhrase, Tree.splitTrailing_raise]
    simp only
    rw [hmake, ← ih]
    congr 1
    cases best with
    | none => rfl
    | some b =>
      simp only [Option.map_some, Tree.prefersSecond_raise]
      split <;> rfl

end Reading

end SpanIndex.Syntax
