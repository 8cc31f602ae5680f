import SpanIndex.Proofs.Syntax.Fault
import SpanIndex.Proofs.Syntax.Linked
import SpanIndex.Proofs.Syntax.Parse

/-!
# Costs on the stack

What a branch costs is what the trees on it cost (`Traces`). This stays so when productions are closed and
when branches are merged, whatever way down is taken, and as only faults cost anything, a branch that has
come through a syntax error cannot get rid of it again: what it has read holds the fault.

Frames on which a branch has finished are set apart. No other branch comes to stand on them, so nothing
has to be known of them (`Linked`).
-/

namespace SpanIndex.Syntax.Reading

variable {text : List Char} {live : Nat → Prop} {done : Option Tree → Prop} {r r' r'' x : Reading}
  {n k u v w c : Nat} {b : Branch} {f g : Frame} {t : Option Tree} {st : Option State} {p : Place}

/-- What is known of the costs and states of two frames and the tree between them. The reader is lost only
where there is no tree or where text is skipped, and that has a cost; what is set apart leaves the state as
it is. -/
structure Traces (f g : Frame) (t : Option Tree) : Prop where
  cost_eq : f.cost = g.cost + (t.map (·.facts.cost)).getD 0
  honest : ∀ x, t = some x → x.Honest
  apart : ∀ x, t = some x → x.facts.label = .error → x.facts.extra = true
  present : f.state ≠ none → t ≠ none
  lost : f.cost = 0 → f.state = none → t = none ∧ g.state ≠ none
  stays : f.cost = 0 → ∀ x, t = some x → x.facts.extra = true → (g.state == f.state) = true

theorem stable_traces : Stable Traces where
  congr := by
    intro f f' g g' t h hf hfc hg hgc
    refine ⟨by rw [hfc, hgc]; exact h.cost_eq, h.honest, h.apart, ?_, ?_, ?_⟩
    · rw [hf]; exact h.present
    · rw [hfc, hf, hg]; exact h.lost
    · rw [hfc, hf, hg]; exact h.stays
  similar := by
    intro f f' g t h hsim
    unfold Reading.similar at hsim
    rw [Bool.and_eq_true, Bool.and_eq_true, beq_iff_eq, beq_iff_eq] at hsim
    obtain ⟨⟨-, hcost⟩, hstate⟩ := hsim
    have hstate := beq_state_iff.mp hstate
    have hnone : f'.state = none ↔ f.state = none := by
      rw [← Option.map_eq_none_iff (f := State.items), hstate, Option.map_eq_none_iff]
    refine ⟨hcost.trans h.cost_eq, h.honest, h.apart, ?_, ?_, ?_⟩
    · rw [Ne, hnone]; exact h.present
    · rw [hcost, hnone]; exact h.lost
    · intro hz x hx he
      have hs := h.stays (hcost ▸ hz) x hx he
      rw [beq_state_iff] at hs ⊢
      exact hs.trans hstate.symm

/-! ## The invariant -/

/-- A branch that goes on stands on a live frame, and the token that it waits for costs nothing. -/
structure BranchTraced (live : Nat → Prop) (b : Branch) : Prop where
  live_top : b.status.isHalted = false → live b.top
  paused : ∀ t, b.status = .paused t → t.facts.cost = 0

/-- Costs come from the trees on the stack, at least as far as branches go on. What is finished is as it
should be. -/
structure Traced (live : Nat → Prop) (done : Option Tree → Prop) (r : Reading) : Prop where
  linked : Linked live Traces r
  live_later : ∀ n, r.frames.size ≤ n → live n
  bottom : ∀ n, n < r.frames.size → (r.frame n).links = [] → (r.frame n).cost = 0
  branches : ∀ b ∈ r.branches, BranchTraced live b
  finished : done r.finished

theorem Traced.branch (h : Traced live done r) (v : Nat) : BranchTraced live (r.branch v) := by
  rcases r.branch_mem v with hb | hb
  · exact h.branches _ hb
  · rw [hb]
    exact ⟨(fun hh => by cases hh), fun t ht => by cases ht⟩

theorem not_halted_of_active {b : Branch} (h : b.status = .active) : b.status.isHalted = false := by
  rw [h]; rfl

theorem Traced.live_active (h : Traced live done r) (hv : r.isActive v = true) :
    live (r.branch v).top := by
  refine (h.branch v).live_top ?_
  unfold isActive Status.isActive at hv
  split at hv
  · next hs => rw [hs]; rfl
  · cases hv

/-- The invariant is about frames, and about each branch on its own. -/
theorem Traced.of_branches (h : Traced live done r) (hf : r'.frames = r.frames)
    (hfin : r'.finished = r.finished) (hb : ∀ b ∈ r'.branches, BranchTraced live b) :
    Traced live done r' := by
  have hframe : ∀ n, r'.frame n = r.frame n := fun n => by unfold frame; rw [hf]
  refine ⟨h.linked.of_frames hf, ?_, ?_, hb, ?_⟩
  · rw [hf]; exact h.live_later
  · intro n hn; rw [hframe]; exact h.bottom n (hf ▸ hn)
  · rw [hfin]; exact h.finished

theorem Traced.of_sublist (h : Traced live done r) (hf : r'.frames = r.frames)
    (hfin : r'.finished = r.finished) (hb : ∀ b ∈ r'.branches, b ∈ r.branches) :
    Traced live done r' :=
  h.of_branches hf hfin fun b hmem => h.branches b (hb b hmem)

theorem Traced.setBranch (h : Traced live done r) (hb : BranchTraced live b) :
    Traced live done (r.setBranch v b) := by
  refine h.of_branches rfl rfl fun b' hmem => ?_
  rcases List.mem_or_eq_of_mem_set hmem with hmem | rfl
  · exact h.branches _ hmem
  · exact hb

theorem Traced.addBranch (h : Traced live done r) (hb : BranchTraced live b) :
    Traced live done (r.addBranch b) := by
  refine h.of_branches rfl rfl fun b' hmem => ?_
  rcases List.mem_append.mp hmem with hmem | hmem
  · exact h.branches _ hmem
  · rw [List.mem_singleton.mp hmem]
    exact hb

theorem Traced.removeBranch (h : Traced live done r) (v : Nat) : Traced live done (r.removeBranch v) :=
  h.of_sublist rfl rfl fun _ hmem => List.mem_of_mem_eraseIdx hmem

theorem Traced.halt (h : Traced live done r) (v : Nat) : Traced live done (r.setStatus v .halted) :=
  h.setBranch ⟨(fun hh => by cases hh), fun _ ht => by cases ht⟩

/-! ## Pushing -/

theorem links_push_ne_nil (hn : n < (r.push v t st).frames.size) (hl : ((r.push v t st).frame n).links = []) :
    n < r.frames.size ∧ (r.frame n).links = [] := by
  have hsize : (r.push v t st).frames.size = r.frames.size + 1 := by
    rw [frames_push, Array.size_push]
  rcases Nat.lt_or_eq_of_le (Nat.lt_succ_iff.mp (hsize ▸ hn)) with hn | rfl
  · rw [frame_push_lt hn] at hl
    exact ⟨hn, hl⟩
  · rw [frame_push, links_pushed] at hl
    cases hl

theorem Traced.push (h : Traced live done r) (htop : (r.branch v).top < r.frames.size)
    (hv : (r.branch v).status.isHalted = false) (hj : Traces (r.pushed v t st) (r.top v) t) :
    Traced live done (r.push v t st) := by
  have hsize : (r.push v t st).frames.size = r.frames.size + 1 := by
    rw [frames_push, Array.size_push]
  refine ⟨h.linked.push htop fun _ => ⟨(h.branch v).live_top hv, hj⟩, ?_, ?_, ?_, ?_⟩
  · intro n hn
    exact h.live_later n (by omega)
  · intro n hn hl
    obtain ⟨hn', hl'⟩ := links_push_ne_nil hn hl
    rw [frame_push_lt hn']
    exact h.bottom n hn' hl'
  · intro b hb
    unfold Reading.push at hb
    rcases List.mem_or_eq_of_mem_set hb with hb | rfl
    · exact h.branches b hb
    · exact ⟨fun _ => h.live_later _ (Nat.le_refl _), (h.branch v).paused⟩
  · rw [finished_push]; exact h.finished

/-- What is pushed on a branch that is halted is set apart. -/
theorem Traced.push_halted (h : Traced live done r) (hs : r.Sound text)
    (hv : (r.branch v).status.isHalted = true) (t : Option Tree) (st : Option State) :
    Traced (fun n => live n ∧ n ≠ r.frames.size) done (r.push v t st) := by
  have hsize : (r.push v t st).frames.size = r.frames.size + 1 := by
    rw [frames_push, Array.size_push]
  refine ⟨?_, ?_, ?_, ?_, ?_⟩
  · rintro n hn ⟨hlive, hne⟩ l hl
    have hn' : n < r.frames.size := by omega
    rw [frame_push_lt hn'] at hl ⊢
    obtain ⟨hlt, hlive', hj⟩ := h.linked n hn' hlive l hl
    rw [frame_push_lt hlt]
    exact ⟨by omega, ⟨hlive', by omega⟩, hj⟩
  · intro n hn
    exact ⟨h.live_later n (by omega), by omega⟩
  · intro n hn hl
    obtain ⟨hn', hl'⟩ := links_push_ne_nil hn hl
    rw [frame_push_lt hn']
    exact h.bottom n hn' hl'
  · intro b hb
    unfold Reading.push at hb
    rcases List.mem_or_eq_of_mem_set hb with hb | rfl
    · refine ⟨fun hh => ⟨(h.branches b hb).live_top hh, ?_⟩, (h.branches b hb).paused⟩
      exact Nat.ne_of_lt (hs.top_lt b hb)
    · exact ⟨fun hh => absurd (hv.symm.trans hh) Bool.noConfusion, (h.branch v).paused⟩
  · rw [finished_push]; exact h.finished

/-- The cost of a branch on which a tree has been pushed. -/
theorem cost_push {t : Tree} (hv : v < r.size) :
    ((r.push v (some t) st).top v).cost = (r.top v).cost + t.facts.cost := by
  show ((r.push v (some t) st).frame ((r.push v (some t) st).branch v).top).cost = _
  rw [top_push hv, frame_push]
  rfl

theorem waypoints_push (r : Reading) (u v : Nat) (t : Option Tree) (st : Option State) :
    ((r.push v t st).branch u).waypoints = (r.branch u).waypoints := by
  by_cases h : u = v
  · subst h
    by_cases hv : u < r.size
    · unfold Reading.push
      simp only
      rw [branch_setBranch (by exact hv)]
    · rw [branch_of_size_le (by rw [size_push]; omega), branch_of_size_le (Nat.le_of_not_lt hv)]
  · rw [branch_push_ne h]

/-! ## Readings of which one arises from the other -/

/-- The first `k` branches are as they were, and all frames have the costs that they had. -/
structure Retains (k : Nat) (r r' : Reading) : Prop extends Keeps k r r' where
  cost_eq : ∀ n, n < r.frames.size → (r'.frame n).cost = (r.frame n).cost
  waypoints_eq : ∀ u, u < k → (r'.branch u).waypoints = (r.branch u).waypoints

variable {m : Nat}

theorem Retains.refl (h : k ≤ r.size) : Retains k r r :=
  ⟨Keeps.refl h, fun _ _ => rfl, fun _ _ => rfl⟩

theorem Retains.trans (h : Retains k r r') (h' : Retains m r' r'') (hkm : k ≤ m) :
    Retains k r r'' where
  toKeeps := h.toKeeps.trans h'.toKeeps hkm
  cost_eq := fun n hn =>
    (h'.cost_eq n (Nat.lt_of_lt_of_le hn h.frames_le)).trans (h.cost_eq n hn)
  waypoints_eq := fun u hu =>
    (h'.waypoints_eq u (Nat.lt_of_lt_of_le hu hkm)).trans (h.waypoints_eq u hu)

theorem Retains.mono (h : Retains k r r') (hmk : m ≤ k) : Retains m r r' where
  toKeeps := ⟨h.frames_le, h.place_eq, h.state_eq, Nat.le_trans hmk h.le_size,
    fun u hu => h.top_eq u (Nat.lt_of_lt_of_le hu hmk),
    fun u hu => h.status_eq u (Nat.lt_of_lt_of_le hu hmk)⟩
  cost_eq := h.cost_eq
  waypoints_eq := fun u hu => h.waypoints_eq u (Nat.lt_of_lt_of_le hu hmk)

theorem Retains.cost (h : Retains k r r') (hs : r.Sound text) (hu : u < k) :
    (r'.top u).cost = (r.top u).cost := by
  unfold Reading.top
  rw [h.top_eq u hu]
  exact h.cost_eq _ (hs.branch_top_lt u)

theorem retains_push (hk : k ≤ r.size) (hv : k ≤ v) : Retains k r (r.push v t st) where
  toKeeps := keeps_push hk hv
  cost_eq := fun n hn => by rw [frame_push_lt hn]
  waypoints_eq := fun u _ => waypoints_push r u v t st

theorem retains_addBranch (r : Reading) (b : Branch) : Retains r.size r (r.addBranch b) where
  toKeeps := keeps_addBranch r b
  cost_eq := fun _ _ => rfl
  waypoints_eq := fun u hu => by rw [branch_addBranch_lt hu]

theorem retains_setBranch (hk : k ≤ r.size) (hv : k ≤ v) : Retains k r (r.setBranch v b) where
  toKeeps := keeps_setBranch_of_ge hk hv
  cost_eq := fun _ _ => rfl
  waypoints_eq := fun u hu => by rw [branch_setBranch_ne (by omega)]

theorem Merges.retains (h : Merges w r r') : Retains w r r' where
  toKeeps := h.toDrops.keeps
  cost_eq := fun n _ => h.cost_eq n
  waypoints_eq := h.waypoints_lt

/-- `y` is the reading `x` with one more branch, which goes on from the frame `n`. -/
structure Forks (n : Nat) (x y : Reading) : Prop where
  retains : Retains x.size x y
  size_eq : y.size = x.size + 1
  top_eq : (y.branch x.size).top = n
  active : (y.branch x.size).status = .active
  no_waypoints : (y.branch x.size).waypoints = none

theorem forks_addBranch (x : Reading) (b : Branch) (hactive : b.status = .active)
    (hways : b.waypoints = none) : Forks b.top x (x.addBranch b) where
  retains := retains_addBranch x b
  size_eq := size_addBranch x b
  top_eq := by rw [branch_addBranch]
  active := by rw [branch_addBranch]; exact hactive
  no_waypoints := by rw [branch_addBranch]; exact hways

variable {y : Reading}

theorem Forks.lt_size (h : Forks n x y) : x.size < y.size := by
  rw [h.size_eq]
  exact Nat.lt_succ_self _

theorem Forks.top_lt (h : Forks n x y) (hn : n < x.frames.size) :
    (y.branch x.size).top < y.frames.size := by
  rw [h.top_eq]
  exact Nat.lt_of_lt_of_le hn h.retains.frames_le

theorem Forks.cost (h : Forks n x y) (hn : n < x.frames.size) :
    (y.top x.size).cost = (x.frame n).cost := by
  unfold Reading.top
  rw [h.top_eq]
  exact h.retains.cost_eq n hn

theorem Forks.state (h : Forks n x y) (hn : n < x.frames.size) :
    y.state x.size = (x.frame n).state := by
  unfold Reading.state Reading.top
  rw [h.top_eq]
  exact h.retains.state_eq n hn

/-! ## Merging -/

theorem Traced.merge? (h : Traced live done r) (hs : r.Sound text) (hm : r.merge? v w = some r') :
    Traced live done r' ∧ Merges w r r' := by
  obtain ⟨hl, hd⟩ := merge?_linked stable_traces hs h.linked (fun u hu => h.live_active hu) hm
  refine ⟨⟨hl, ?_, ?_, ?_, ?_⟩, hd⟩
  · rw [hd.frames_eq]; exact h.live_later
  · intro n hn hnil
    rw [hd.cost_eq]
    exact h.bottom n (hd.frames_eq ▸ hn) (hd.links_nil n hnil)
  · intro b hb
    obtain ⟨u, -, rfl⟩ := mem_branches_iff.mp hb
    by_cases huw : u < w
    · have hold := h.branch u
      exact ⟨by rw [hd.status_lt u huw, hd.top_lt u huw]; exact hold.live_top,
        by rw [hd.status_lt u huw]; exact hold.paused⟩
    · have huw := Nat.le_of_not_lt huw
      have hold := h.branch (u + 1)
      exact ⟨by rw [hd.status_ge u huw, hd.top_ge u huw]; exact hold.live_top,
        by rw [hd.status_ge u huw]; exact hold.paused⟩
  · rw [hd.finished_eq]; exact h.finished

theorem Traced.mergeFirst? {vs : List Nat} (h : Traced live done r) (hs : r.Sound text)
    (hm : r.mergeFirst? vs w = some r') : Traced live done r' ∧ Merges w r r' := by
  obtain ⟨v, -, hv⟩ := List.exists_of_findSome?_eq_some hm
  exact h.merge? hs hv

/-! ## Ways down -/

/-- The trees on a path make up the difference between the cost `c` and that of the frame it leads to. -/
structure Route (live : Nat → Prop) (r : Reading) (c : Nat) (p : Path) : Prop where
  node_lt : p.node < r.frames.size
  live_node : live p.node
  cost_eq : c = (r.frame p.node).cost + Tree.costs p.trees
  honest : ∀ t ∈ p.trees, t.Honest

theorem Route.follow {p : Path} {l : Link} (h : Route live r c p) (hl : Linked live Traces r)
    (hmem : l ∈ (r.frame p.node).links) : Route live r c (p.follow l) := by
  obtain ⟨hlt, hlive, hj⟩ := hl p.node h.node_lt h.live_node l hmem
  have hcost := hj.cost_eq
  have hc := h.cost_eq
  unfold Path.follow
  cases ht : l.tree with
  | none =>
    rw [ht] at hcost
    exact ⟨hlt, hlive, by rw [hc, hcost]; rfl, h.honest⟩
  | some t =>
    rw [ht] at hcost
    refine ⟨hlt, hlive, ?_, ?_⟩
    · rw [hc, hcost]
      show _ = (r.frame l.below).cost + Tree.costs (t :: p.trees)
      rw [Tree.costs_cons, Option.map_some, Option.getD_some]
      omega
    · intro x hx
      rcases List.mem_cons.mp hx with rfl | hx
      · exact hj.honest _ ht
      · exact h.honest x hx

theorem Traced.route_start (h : Traced live done r) (hs : r.Sound text)
    (hv : (r.branch v).status.isHalted = false) :
    Route live r (r.top v).cost ⟨(r.branch v).top, [], 0⟩ :=
  ⟨hs.branch_top_lt v, (h.branch v).live_top hv, rfl, fun _ ht => by cases ht⟩

/-- All ways to take trees off a branch make up for what they leave. -/
theorem Traced.slices_route (h : Traced live done r) (hs : r.Sound text)
    (hv : (r.branch v).status.isHalted = false) {depth : Nat} {s : Nat × List (List Tree)}
    (hmem : s ∈ r.slices v depth) :
    s.2 ≠ [] ∧ ∀ trees ∈ s.2, Route live r (r.top v).cost ⟨s.1, trees, depth⟩ :=
  slices_induction (P := Route live r (r.top v).cost) (h.route_start hs hv)
    (fun _ hp _ _ hl => hp.follow h.linked hl) hmem

/-! ## Closing a production -/

variable {next : State} {trees : List Tree}

/-- A tree that leads on to a state traces the step. If nothing has a cost, then what is set apart must
leave the state as it is. -/
theorem traces_pushed {t : Tree} (r : Reading) (v : Nat) (next : State) (ht : t.Honest)
    (hapart : t.facts.label = .error → t.facts.extra = true)
    (hextra : t.facts.extra = true → t.facts.cost = 0 → (r.state v == some next) = true) :
    Traces (r.pushed v (some t) (some next)) (r.top v) (some t) where
  cost_eq := rfl
  honest := fun _ hx => Option.some.inj hx ▸ ht
  apart := fun _ hx => Option.some.inj hx ▸ hapart
  present := fun _ => Option.some_ne_none t
  lost := fun _ hx => by cases hx
  stays := fun hz _ hx => Option.some.inj hx ▸ fun he => hextra he (Nat.add_eq_zero_iff.mp hz).2

/-- What is set apart is put on top of a branch without a change of state. -/
theorem Traced.foldl_push (trees : List Tree) (h : Traced live done r) (hv : v < r.size)
    (htop : (r.branch v).top < r.frames.size) (hactive : (r.branch v).status.isHalted = false)
    (hstate : (r.state v == some next) = true)
    (htrees : ∀ t ∈ trees, t.Honest ∧ t.facts.extra = true) :
    Traced live done (trees.foldl (fun x t => x.push v (some t) (some next)) r)
      ∧ Retains v r (trees.foldl (fun x t => x.push v (some t) (some next)) r)
      ∧ ((trees.foldl (fun x t => x.push v (some t) (some next)) r).top v).cost
        = (r.top v).cost + Tree.costs trees
      ∧ ((trees.foldl (fun x t => x.push v (some t) (some next)) r).branch v).waypoints
        = (r.branch v).waypoints
      ∧ (trees.foldl (fun x t => x.push v (some t) (some next)) r).state v ≠ none := by
  induction trees generalizing r with
  | nil =>
    refine ⟨h, Retains.refl (Nat.le_of_lt hv), rfl, rfl, fun hnone => ?_⟩
    rw [List.foldl_nil] at hnone
    rw [hnone] at hstate
    cases hstate
  | cons t trees ih =>
    obtain ⟨ht, hextra⟩ := htrees t List.mem_cons_self
    have h1 := h.push htop hactive (traces_pushed r v next ht (fun _ => hextra) fun _ _ => hstate)
    obtain ⟨h2, hr2, hc2, hw2, hs2⟩ := ih h1 (by rw [size_push]; exact hv)
      (by rw [top_push hv, frames_push, Array.size_push]; exact Nat.lt_succ_self _)
      (by rw [status_push]; exact hactive) (by rw [state_push hv, beq_state_iff])
      fun x hx => htrees x (List.mem_cons_of_mem _ hx)
    rw [List.foldl_cons]
    refine ⟨h2, (retains_push (Nat.le_of_lt hv) (Nat.le_refl _)).trans hr2 (Nat.le_refl _), ?_, ?_, hs2⟩
    · rw [hc2, cost_push hv, Tree.costs_cons]
      omega
    · rw [hw2, waypoints_push]

/-- The branches from `k` on are new. They cost `c`, and none of them is lost or has gone back. -/
structure Bears (k c : Nat) (r r' : Reading) : Prop extends Retains k r r' where
  cost_new : ∀ u, k ≤ u → u < r'.size → (r'.top u).cost = c
  waypoints_new : ∀ u, k ≤ u → u < r'.size → (r'.branch u).waypoints = none
  state_new : ∀ u, k ≤ u → u < r'.size → r'.state u ≠ none

theorem Bears.refl (r : Reading) (c : Nat) : Bears r.size c r r where
  toRetains := Retains.refl (Nat.le_refl _)
  cost_new := fun _ h h' => absurd h' (Nat.not_lt.mpr h)
  waypoints_new := fun _ h h' => absurd h' (Nat.not_lt.mpr h)
  state_new := fun _ h h' => absurd h' (Nat.not_lt.mpr h)

theorem Bears.trans (h : Bears k c r r') (hs : r'.Sound text) (h' : Bears r'.size c r' r'') :
    Bears k c r r'' where
  toRetains := h.toRetains.trans h'.toRetains h.le_size
  cost_new := fun u hk hu => by
    by_cases hlt : u < r'.size
    · rw [h'.toRetains.cost hs hlt]; exact h.cost_new u hk hlt
    · exact h'.cost_new u (Nat.le_of_not_lt hlt) hu
  waypoints_new := fun u hk hu => by
    by_cases hlt : u < r'.size
    · rw [h'.waypoints_eq u hlt]; exact h.waypoints_new u hk hlt
    · exact h'.waypoints_new u (Nat.le_of_not_lt hlt) hu
  state_new := fun u hk hu => by
    by_cases hlt : u < r'.size
    · rw [h'.toKeeps.state hs hlt]; exact h.state_new u hk hlt
    · exact h'.state_new u (Nat.le_of_not_lt hlt) hu

/-- A new branch that costs `c` is there in the end, or has been merged into an older one. -/
theorem bears_of_mergeFirst? {vs : List Nat} (hr : Retains r.size r x) (h : Traced live done x)
    (hs : x.Sound text) (hsize : x.size = r.size + 1) (hc : (x.top r.size).cost = c)
    (hw : (x.branch r.size).waypoints = none) (hst : x.state r.size ≠ none) :
    Traced live done ((x.mergeFirst? vs r.size).getD x)
      ∧ Bears r.size c r ((x.mergeFirst? vs r.size).getD x) := by
  cases hm : x.mergeFirst? vs r.size with
  | none =>
    have hu' : ∀ u, r.size ≤ u → u < x.size → u = r.size := fun u hu hlt => by omega
    refine ⟨h, hr, fun u hu hlt => ?_, fun u hu hlt => ?_, fun u hu hlt => ?_⟩
    · rw [hu' u hu hlt]; exact hc
    · rw [hu' u hu hlt]; exact hw
    · rw [hu' u hu hlt]; exact hst
  | some y =>
    obtain ⟨hy, hd⟩ := h.mergeFirst? hs hm
    have hnone : ∀ u, r.size ≤ u → ¬u < y.size := fun u hu hlt => by
      rw [hd.size_eq, hsize] at hlt
      omega
    exact ⟨hy, hr.trans hd.retains (Nat.le_refl _), fun u hu hlt => absurd hlt (hnone u hu),
      fun u hu hlt => absurd hlt (hnone u hu), fun u hu hlt => absurd hlt (hnone u hu)⟩

/-- Nothing that is skipped is part of a phrase. -/
theorem not_skipped_of_collects {node : Nat}
    (hway : Way text r p ⟨node, trees, (Grammar.production k).steps.size⟩)
    (hcol : Collects r k ⟨node, trees, (Grammar.production k).steps.size⟩) :
    ∀ t ∈ trees, t.facts.label ≠ .skipped := by
  intro t ht hl
  by_cases hx : t.facts.extra = true
  · rcases (hway.sound t ht).placed.apart hx with h | h | h <;> rw [h] at hl <;> cases hl
  · have hmem : t.facts.label ∈ Tree.parts trees :=
      List.mem_map_of_mem (List.mem_filter.mpr ⟨ht, by simp [hx]⟩)
    have hparts := hcol.parts_eq
    simp only at hparts
    rw [hparts, hl] at hmem
    obtain ⟨s, -, hs⟩ := List.mem_map.mp (List.mem_of_mem_drop hmem)
    cases hs

/-- The new branch costs what the old one costs. -/
theorem closing_traced (h : Traced live done r) (hs : r.Sound text) {st : State}
    (hv : (r.branch v).status.isHalted = false) (hst : r.state v = some st) (hc : st.Closes k)
    (hx : Traced live done x) (hr : Retains r.size r x) {node : Nat}
    {alternatives : List (List Tree)}
    (hmem : (node, alternatives) ∈ r.slices v (Grammar.production k).steps.size)
    (htrees : trees ∈ alternatives) (next : State) :
    let y := x.closing v k node next (x.phraseOf k node trees) (Tree.splitTrailing trees).2
    Traced live done y ∧ Retains x.size x y ∧ (y.top x.size).cost = (r.top v).cost
      ∧ (y.branch x.size).waypoints = none ∧ y.state x.size ≠ none := by
  intro y
  have hroute := (h.slices_route hs hv hmem).2 trees htrees
  obtain ⟨hway, hcol⟩ := (slices_reduce hs hst hc hmem).2 trees htrees
  have hskip := not_skipped_of_collects hway hcol
  have happ := splitTrailing_append trees
  have hinner : ∀ t ∈ (Tree.splitTrailing trees).1, t ∈ trees := fun t ht =>
    happ ▸ List.mem_append_left _ ht
  have htrail : ∀ t ∈ (Tree.splitTrailing trees).2, t ∈ trees := fun t ht =>
    happ ▸ List.mem_append_right _ ht
  have hnode : node < x.frames.size := Nat.lt_of_lt_of_le hroute.node_lt hr.frames_le
  have hphrase : (x.phraseOf k node trees).Honest :=
    Tree.honest_build _ _ _ fun t ht => hroute.honest t (hinner t ht)
  have hcost : (x.phraseOf k node trees).facts.cost = Tree.costs (Tree.splitTrailing trees).1 :=
    Tree.cost_build_of_fits rfl fun t ht => hskip t (hinner t ht)
  have h1 : Traced live done (x.addBranch ⟨node, (x.branch v).countAtError, .active, none⟩) :=
    hx.addBranch ⟨fun _ => hroute.live_node, fun _ ht => by cases ht⟩
  have hfork : Forks node x (x.addBranch ⟨node, (x.branch v).countAtError, .active, none⟩) :=
    forks_addBranch x ⟨node, (x.branch v).countAtError, .active, none⟩ rfl rfl
  have hy : y = (Tree.splitTrailing trees).2.foldl (fun z t => z.push x.size (some t) (some next))
      ((x.addBranch ⟨node, (x.branch v).countAtError, .active, none⟩).push x.size
        (some ((x.phraseOf k node trees).addWeight (Grammar.production k).weight)) (some next)) := rfl
  rw [hy]
  generalize x.addBranch ⟨node, (x.branch v).countAtError, .active, none⟩ = z at h1 hfork
  have hlt := hfork.lt_size
  have hhalt := not_halted_of_active hfork.active
  have h2 := h1.push (hfork.top_lt hnode) hhalt
    (traces_pushed z x.size next (hphrase.addWeight (Grammar.production k).weight)
      (fun hl => by rw [Tree.label_addWeight] at hl; cases hl)
      fun hl => by rw [Tree.extra_addWeight] at hl; cases hl)
  have hr2 : Retains x.size z (z.push x.size
      (some ((x.phraseOf k node trees).addWeight (Grammar.production k).weight)) (some next)) :=
    retains_push (Nat.le_of_lt hlt) (Nat.le_refl _)
  obtain ⟨h3, hr3, hc3, hw3, hs3⟩ := h2.foldl_push (Tree.splitTrailing trees).2
    (by rw [size_push]; exact hlt)
    (by rw [top_push hlt, frames_push, Array.size_push]; exact Nat.lt_succ_self _)
    (by rw [status_push]; exact hhalt) (by rw [state_push hlt, beq_state_iff])
    fun t ht => ⟨hroute.honest t (htrail t ht), extra_of_mem_splitTrailing ht⟩
  refine ⟨h3, hfork.retains.trans (hr2.trans hr3 (Nat.le_refl _)) (Nat.le_refl _), ?_, ?_, hs3⟩
  · have hsum : Tree.costs trees = Tree.costs (Tree.splitTrailing trees).1
        + Tree.costs (Tree.splitTrailing trees).2 := by
      rw [← Tree.costs_append, happ]
    have heq := hroute.cost_eq
    simp only at heq
    rw [hc3, cost_push hlt, hfork.cost hnode, hr.cost_eq node hroute.node_lt, Tree.cost_addWeight, hcost,
      heq, hsum]
    omega
  · rw [hw3, waypoints_push, hfork.no_waypoints]

theorem closeSlice_traced (h : Traced live done r) (hs : r.Sound text) {st : State}
    (hv : (r.branch v).status.isHalted = false) (hst : r.state v = some st) (hc : st.Closes k)
    (hx : Traced live done x) (hsx : x.Sound text) (hr : Retains r.size r x)
    {s : Nat × List (List Tree)} (hmem : s ∈ r.slices v (Grammar.production k).steps.size)
    (halted : Nat) :
    Traced live done (closeSlice v k halted x s)
      ∧ Bears x.size (r.top v).cost x (closeSlice v k halted x s) := by
  obtain ⟨node, alternatives⟩ := s
  rcases closeSlice_cases v k halted x node alternatives with
    heq | ⟨trees, htrees, below, next, hstate, hadv, heq⟩
  · rw [heq]
    exact ⟨hx, Bears.refl x _⟩
  · obtain ⟨hsy, -, -, hsize⟩ := closing_stands hs hst hc hsx hr.toKeeps hmem htrees hstate hadv
    obtain ⟨hy, hry, hcost, hways, hstate'⟩ := closing_traced h hs hv hst hc hx hr hmem htrees next
    rw [heq]
    exact bears_of_mergeFirst? hry hy hsy hsize hcost hways hstate'

/-- Closing a production leads to new branches that cost what the old one costs. -/
theorem reduce_traced (h : Traced live done r) (hs : r.Sound text) {st : State}
    (hv : (r.branch v).status.isHalted = false) (hst : r.state v = some st) (hc : st.Closes k) :
    Traced live done (r.reduce v k) ∧ Bears r.size (r.top v).cost r (r.reduce v k) := by
  unfold reduce
  extract_lets halted
  have hfold : ∀ (slices : List (Nat × List (List Tree))) (x : Reading),
      (∀ s ∈ slices, s ∈ r.slices v (Grammar.production k).steps.size) → Traced live done x →
      x.Sound text → Bears r.size (r.top v).cost r x →
      Traced live done (slices.foldl (closeSlice v k halted) x)
        ∧ Bears r.size (r.top v).cost r (slices.foldl (closeSlice v k halted) x) := by
    intro slices
    induction slices with
    | nil => intro x _ hx _ hb; exact ⟨hx, hb⟩
    | cons s slices ih =>
      intro x hmem hx hsx hb
      have hs' := hmem s List.mem_cons_self
      obtain ⟨hsx', -⟩ := closeSlice_grows hs hst hc hsx hb.toKeeps hs' halted
      obtain ⟨hx', hb'⟩ := closeSlice_traced h hs hv hst hc hx hsx hb.toRetains hs' halted
      exact ih _ (fun s' hs' => hmem s' (List.mem_cons_of_mem _ hs')) hx' hsx' (hb.trans hsx hb')
  exact hfold _ r (fun _ hs => hs) h hs (Bears.refl r _)

variable {found : Reading × Option Nat}

/-- One more production is closed on the branch `v`. -/
theorem Closed.reduceNew_traced (h : Closed text r v found) (ht : Traced live done found.1)
    (hb : Bears r.size (r.top v).cost r found.1) (hs : r.Sound text) (hv : v < r.size)
    (hhalt : (r.branch v).status.isHalted = false) {st : State} (hst : r.state v = some st)
    (hc : st.Closes k) :
    Traced live done (found.1.reduceNew v k).1
      ∧ Bears r.size (r.top v).cost r (found.1.reduceNew v k).1 := by
  have hstate : found.1.state v = some st := (hb.toKeeps.state hs hv).trans hst
  have hhalt' : (found.1.branch v).status.isHalted = false := by
    rw [hb.status_eq v hv]
    exact hhalt
  obtain ⟨ht', hb'⟩ := reduce_traced ht h.sound hhalt' hstate hc
  rw [hb.toRetains.cost hs hv] at hb'
  rw [fst_reduceNew]
  exact ⟨ht', hb.trans h.sound hb'⟩

theorem Closed.foldl_reduceNew_traced {ks : List Nat} (h : Closed text r v found)
    (ht : Traced live done found.1) (hb : Bears r.size (r.top v).cost r found.1) (hs : r.Sound text)
    (hv : v < r.size) (hhalt : (r.branch v).status.isHalted = false) {st : State}
    (hst : r.state v = some st) (hks : ∀ k ∈ ks, st.Closes k) :
    Traced live done (ks.foldl (fun found p => found.1.reduceNew v p) found).1
      ∧ Bears r.size (r.top v).cost r (ks.foldl (fun found p => found.1.reduceNew v p) found).1 := by
  induction ks generalizing found with
  | nil => exact ⟨ht, hb⟩
  | cons k ks ih =>
    rw [List.foldl_cons]
    have hk := hks k List.mem_cons_self
    obtain ⟨ht', hb'⟩ := h.reduceNew_traced ht hb hs hv hhalt hst hk
    exact ih (h.reduceNew hs hv hst hk).1 ht' hb' fun k' hk' => hks k' (List.mem_cons_of_mem _ hk')

theorem Closed.foldl_closeBy_traced {actions : List State.Action} (h : Closed text r v found)
    (ht : Traced live done found.1) (hb : Bears r.size (r.top v).cost r found.1) (hs : r.Sound text)
    (hv : v < r.size) (hhalt : (r.branch v).status.isHalted = false) {st : State}
    (hst : r.state v = some st) (hcloses : ∀ k, .reduce k ∈ actions → st.Closes k) :
    Traced live done (actions.foldl (Reading.closeBy v) found).1
      ∧ Bears r.size (r.top v).cost r (actions.foldl (Reading.closeBy v) found).1 := by
  induction actions generalizing found with
  | nil => exact ⟨ht, hb⟩
  | cons a actions ih =>
    rw [List.foldl_cons]
    have hrest : ∀ k, .reduce k ∈ actions → st.Closes k := fun k hk =>
      hcloses k (List.mem_cons_of_mem _ hk)
    have h' := h.closeBy hs hv hst (a := a) fun k hk => hcloses k (hk ▸ List.mem_cons_self)
    cases a with
    | reduce k =>
      obtain ⟨ht', hb'⟩ := h.reduceNew_traced ht hb hs hv hhalt hst (hcloses k List.mem_cons_self)
      refine ih h' ?_ ?_ hrest <;> rw [Reading.closeBy] <;> generalize found.1.reduceNew v k = new at ht' hb'
      · exact ht'
      · exact hb'
    | shift => exact ih h' ht hb hrest
    | shiftRepetition => exact ih h' ht hb hrest
    | accept => exact ih h' ht hb hrest

end SpanIndex.Syntax.Reading
