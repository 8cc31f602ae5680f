import SpanIndex.Proofs.Syntax.Setback

/-!
# The way back has its price

A lost reader goes back to an earlier state only over something that it has read since, which becomes an
error node, or over errors that were there before. For the first error of a text this is not obvious:
comments do not count as something that was read. But a state before a comment is the state behind it, and
that is not gone back to where the reader stands already (`costly_waypoints`).
-/

namespace SpanIndex.Syntax.Reading

variable {text : List Char} {live : Nat → Prop} {done : Option Tree → Prop} {r x y : Reading}
  {k u v w c depth : Nat} {b : Branch} {goal : State} {p : Place} {trees : List Tree}

/-! ## Going back -/

/-- An error node that is taken off a branch holds something besides comments. -/
theorem takeError_traced (h : Traced live done r) (hs : r.Sound text)
    (hactive : (r.branch v).status = .active) :
    r.takeError v = (r, []) ∨ ∃ node trees,
      r.takeError v = (r.setBranch v { r.branch v with top := node }, trees) ∧ node < r.frames.size
        ∧ live node ∧ (∀ t ∈ trees, t.Honest) ∧ ∃ t ∈ trees, t.facts.extra = false := by
  unfold takeError
  extract_lets isError
  split
  · next l hl =>
    right
    have hmem : l ∈ (r.top v).links := List.mem_of_find?_eq_some hl
    have herror : isError l = true := List.find?_some hl
    have hlive := (h.branch v).live_top (not_halted_of_active hactive)
    obtain ⟨hlt, hlive', hj⟩ := h.linked _ (hs.branch_top_lt v) hlive l hmem
    cases ht : l.tree with
    | none => simp [isError, ht] at herror
    | some t =>
      have hlabel : t.facts.label = .error := by simpa [isError, ht] using herror
      have hhonest := hj.honest t ht
      exact ⟨l.below, t.children, rfl, hlt, hlive', fun c hc => hhonest.child hc,
        hhonest.holds hlabel (hj.apart t ht hlabel)⟩
  · exact Or.inl rfl

/-- The trees in front of the comments at the end are none only if all of them are set apart. -/
theorem extra_of_fst_splitTrailing (h : (Tree.splitTrailing trees).1 = []) :
    (Tree.splitTrailing trees).2 = trees ∧ ∀ t ∈ trees, t.facts.extra = true := by
  have happ := splitTrailing_append trees
  rw [h, List.nil_append] at happ
  exact ⟨happ, fun t ht => extra_of_mem_splitTrailing (happ.symm ▸ ht)⟩

theorem exists_mem_splitTrailing (h : (Tree.splitTrailing trees).1 ≠ []) :
    ∃ t ∈ (Tree.splitTrailing trees).1, t.facts.extra = false := by
  obtain ⟨t, ht⟩ := Option.ne_none_iff_exists'.mp (mt List.getLast?_eq_none_iff.mp h)
  have hlast := getLast?_splitTrailing trees
  rw [ht] at hlast
  have hmem := List.mem_of_getLast? hlast.symm
  rw [List.mem_filter] at hmem
  exact ⟨t, List.mem_of_getLast? ht, by simpa using hmem.2⟩

/-- Trees that have a cost, or of which one is not set apart, have a cost when they are pushed as an
error. -/
theorem pushError_traced (goal : State) (trees : List Tree) (h : Traced live done r) (hv : v < r.size)
    (htop : (r.branch v).top < r.frames.size) (hhalt : (r.branch v).status.isHalted = false)
    (htrees : ∀ t ∈ trees, t.Honest)
    (hheavy : 0 < (r.top v).cost + Tree.costs trees ∨ ∃ t ∈ trees, t.facts.extra = false)
    (hstate : (∀ t ∈ trees, t.facts.extra = true) → (r.state v == some goal) = true) :
    Traced live done (r.pushError v trees (some goal)) ∧ Retains v r (r.pushError v trees (some goal))
      ∧ 0 < ((r.pushError v trees (some goal)).top v).cost
      ∧ (r.pushError v trees (some goal)).size = r.size := by
  have happ := splitTrailing_append trees
  have hinner : ∀ t ∈ (Tree.splitTrailing trees).1, t.Honest := fun t ht =>
    htrees t (happ ▸ List.mem_append_left _ ht)
  have htrail : ∀ t ∈ (Tree.splitTrailing trees).2, t.Honest ∧ t.facts.extra = true := fun t ht =>
    ⟨htrees t (happ ▸ List.mem_append_right _ ht), extra_of_mem_splitTrailing ht⟩
  unfold pushError
  extract_lets split r1
  by_cases hempty : split.1.isEmpty = true
  · have hr1 : r1 = r := if_pos hempty
    obtain ⟨hall, hextra⟩ := extra_of_fst_splitTrailing (List.isEmpty_iff.mp hempty)
    have hpos : 0 < (r.top v).cost + Tree.costs trees := by
      rcases hheavy with hpos | ⟨t, ht, hx⟩
      · exact hpos
      · rw [hextra t ht] at hx
        cases hx
    rw [hr1]
    obtain ⟨h1, hr, hcost, -, -⟩ := h.foldl_push _ hv htop hhalt (hstate hextra) htrail
    refine ⟨h1, hr, ?_, size_foldl_push _ _ _ _⟩
    rw [hcost, hall]
    exact hpos
  · have hr1 : r1 = r.push v (some (Tree.build .error none (r.place v) split.1).asExtra)
        (some goal) := if_neg hempty
    have hne : (Tree.splitTrailing trees).1 ≠ [] := fun he => hempty (List.isEmpty_iff.mpr he)
    have hcost : 0 < (Tree.build .error none (r.place v) split.1).asExtra.facts.cost := by
      rw [Tree.cost_asExtra]
      exact Tree.pos_cost_build_of_fault rfl
    have h1 : Traced live done r1 := by
      rw [hr1]
      refine h.push htop hhalt (traces_pushed r v goal ?_ (fun _ => Tree.extra_asExtra _)
        fun _ hz => absurd hz (Nat.ne_of_gt hcost))
      exact (Tree.honest_build _ _ _ hinner).asExtra fun _ => exists_mem_splitTrailing hne
    have hv1 : v < r1.size := by
      rw [hr1, size_push]
      exact hv
    obtain ⟨h2, hr, hcost2, -, -⟩ := h1.foldl_push _ hv1
      (by rw [hr1, top_push hv, frames_push, Array.size_push]; exact Nat.lt_succ_self _)
      (by rw [hr1, status_push]; exact hhalt) (by rw [hr1, state_push hv, beq_state_iff]) htrail
    have hret : Retains v r r1 := hr1 ▸ retains_push (Nat.le_of_lt hv) (Nat.le_refl _)
    refine ⟨h2, hret.trans hr (Nat.le_refl _), ?_, ?_⟩
    · rw [hcost2, hr1, cost_push hv]
      omega
    · rw [size_foldl_push, hr1, size_push]

/-- The way leads over something that has a cost, or over something besides comments. -/
def Heavy (r : Reading) (s : Nat × List (List Tree)) : Prop :=
  0 < (r.frame s.1).cost + Tree.costs (s.2.headD []) ∨ ∃ t ∈ s.2.headD [], t.facts.extra = false

theorem Traced.route_headD (h : Traced live done r) (hs : r.Sound text)
    (hv : (r.branch v).status.isHalted = false) {s : Nat × List (List Tree)}
    (hmem : s ∈ r.slices v depth) : Route live r (r.top v).cost ⟨s.1, s.2.headD [], depth⟩ := by
  obtain ⟨hne, hways⟩ := h.slices_route hs hv hmem
  cases halt : s.2 with
  | nil => exact absurd halt hne
  | cons trees others => exact hways trees (halt ▸ List.mem_cons_self)

/-- Whatever error is opened in front of the way back, what is pushed costs something. -/
theorem returnError_traced (goal : State) (trees : List Tree) (h : Traced live done r)
    (hs : r.Sound text) (hv : v < r.size) (hactive : (r.branch v).status = .active)
    (htrees : ∀ t ∈ trees, t.Honest)
    (hheavy : 0 < (r.top v).cost + Tree.costs trees ∨ ∃ t ∈ trees, t.facts.extra = false)
    (hstate : (r.state v == some goal) = true) :
    let y := (r.takeError v).1.pushError v ((r.takeError v).2 ++ trees) (some goal)
    Traced live done y ∧ Retains v r y ∧ 0 < (y.top v).cost ∧ y.size = r.size := by
  intro y
  have hhalt := not_halted_of_active hactive
  rcases takeError_traced h hs hactive with heq | ⟨node, inner, heq, hlt, hlive, hinner, t, ht, hx⟩
  · have hy : y = r.pushError v trees (some goal) := by
      show (r.takeError v).1.pushError v ((r.takeError v).2 ++ trees) (some goal) = _
      rw [heq, List.nil_append]
    rw [hy]
    exact pushError_traced goal trees h hv (hs.branch_top_lt v) hhalt htrees hheavy fun _ => hstate
  · have hy : y = (r.setBranch v { r.branch v with top := node }).pushError v (inner ++ trees)
        (some goal) := by
      show (r.takeError v).1.pushError v ((r.takeError v).2 ++ trees) (some goal) = _
      rw [heq]
    have hbranch : (r.setBranch v { r.branch v with top := node }).branch v
        = { r.branch v with top := node } := branch_setBranch hv
    have hset : Traced live done (r.setBranch v { r.branch v with top := node }) :=
      h.setBranch ⟨fun _ => hlive, (h.branch v).paused⟩
    obtain ⟨h1, hr, hcost, hsize⟩ := pushError_traced goal (inner ++ trees) hset
      (by rw [size_setBranch]; exact hv) (by rw [hbranch]; exact hlt) (by rw [hbranch]; exact hhalt)
      (fun t ht => (List.mem_append.mp ht).elim (hinner t) (htrees t))
      (Or.inr ⟨t, List.mem_append_left _ ht, hx⟩) fun hall => by
        rw [hall t (List.mem_append_left _ ht)] at hx
        cases hx
    rw [hy]
    refine ⟨h1, (retains_setBranch (Nat.le_of_lt hv) (Nat.le_refl _)).trans hr (Nat.le_refl _), hcost, ?_⟩
    rw [hsize, size_setBranch]

theorem returnOn_traced (h : Traced live done r) (hs : r.Sound text)
    (hv : (r.branch v).status.isHalted = false) {s : Nat × List (List Tree)}
    (hmem : s ∈ r.slices v depth) (hgoal : ((r.frame s.1).state == some goal) = true)
    (hheavy : Heavy r s) (hx : Traced live done x) (hsx : x.Sound text) (hadds : Adds r x) :
    Traced live done (returnOn v (some goal) x s) ∧ Adds x (returnOn v (some goal) x s) := by
  have hroute := h.route_headD hs hv hmem
  obtain ⟨node, alternatives⟩ := s
  have hnode : node < x.frames.size := Nat.lt_of_lt_of_le hroute.node_lt hadds.frames_le
  rw [returnOn]
  -- the branch on the frame that the way leads to
  have h1 : Traced live done (x.addBranch ⟨node, (x.branch v).countAtError, .active, none⟩) :=
    hx.addBranch ⟨fun _ => hroute.live_node, fun _ ht => by cases ht⟩
  have hs1 := (hsx.addBranch_stands hnode (x.branch v).countAtError none).1
  have hfork : Forks node x (x.addBranch ⟨node, (x.branch v).countAtError, .active, none⟩) :=
    forks_addBranch x ⟨node, (x.branch v).countAtError, .active, none⟩ rfl rfl
  generalize x.addBranch ⟨node, (x.branch v).countAtError, .active, none⟩ = z at h1 hs1 hfork
  have hsize := hfork.size_eq
  obtain ⟨h2, hr2, hcost2, hsize2⟩ := returnError_traced goal (alternatives.headD []) h1 hs1
    hfork.lt_size hfork.active hroute.honest
    (by rw [hfork.cost hnode, hadds.cost_eq node hroute.node_lt]; exact hheavy)
    (by rw [hfork.state hnode, hadds.state_eq node hroute.node_lt]; exact hgoal)
  generalize (z.takeError x.size).1.pushError x.size ((z.takeError x.size).2 ++ alternatives.headD [])
    (some goal) = q at h2 hr2 hcost2 hsize2
  have hq : x.size < q.size := by omega
  unfold limitProgress
  extract_lets b
  refine ⟨h2.setBranch ⟨(h2.branch x.size).live_top, (h2.branch x.size).paused⟩, ?_, ?_⟩
  · exact (hfork.retains.trans hr2 (Nat.le_refl _)).trans
      (retains_setBranch (Nat.le_of_lt hq) (Nat.le_refl _)) (Nat.le_refl _)
  · intro u hu hus
    rw [size_setBranch] at hus
    obtain rfl : u = x.size := by omega
    show 0 < (q.frame ((q.setBranch x.size _).branch x.size).top).cost
    rw [branch_setBranch hq]
    exact hcost2

theorem returnTo_traced (h : Traced live done r) (hs : r.Sound text)
    (hv : (r.branch v).status.isHalted = false)
    (hheavy : ∀ s ∈ r.slices v depth, ((r.frame s.1).state == some goal) = true → Heavy r s)
    (hy : r.returnTo v depth (some goal) = some y) : Traced live done y ∧ Adds r y := by
  have hfold : ∀ (targets : List (Nat × List (List Tree))) (x : Reading),
      (∀ s ∈ targets, s ∈ r.slices v depth ∧ ((r.frame s.1).state == some goal) = true) →
      Traced live done x → x.Sound text → Adds r x →
      Traced live done (targets.foldl (returnOn v (some goal)) x)
        ∧ Adds r (targets.foldl (returnOn v (some goal)) x) := by
    intro targets
    induction targets with
    | nil => intro x _ hx _ hadds; exact ⟨hx, hadds⟩
    | cons s targets ih =>
      intro x hmem hx hsx hadds
      obtain ⟨hmem', hgoal⟩ := hmem s List.mem_cons_self
      obtain ⟨hx', hadds'⟩ := returnOn_traced h hs hv hmem' hgoal (hheavy s hmem' hgoal) hx hsx hadds
      obtain ⟨hsx', -⟩ := returnOn_sound hs hmem' hgoal hsx hadds.toKeeps
      exact ih _ (fun s' hs' => hmem s' (List.mem_cons_of_mem _ hs')) hx' hsx' (hadds.trans hsx hadds')
  unfold returnTo at hy
  split at hy
  · cases hy
  · cases hy
    exact hfold _ r (fun s hs => List.mem_filter.mp hs) h hs (Adds.refl r)

/-- Going back to one of the states costs something, if it is done at all. -/
def Costly (r : Reading) (v : Nat) (ws : List Waypoint) : Prop :=
  ∀ w ∈ ws, ∀ st, w.state = some st → w.place.offset ≠ (r.place v).offset →
    ∀ s ∈ r.slices v (if r.progress v == 0 then w.depth else w.depth + 1),
      ((r.frame s.1).state == some st) = true → Heavy r s

theorem tryWaypoints_traced {lookahead : Tree} (h : Traced live done r) (hs : r.Sound text)
    (hv : (r.branch v).status.isHalted = false) (ws : List Waypoint) (hws : Costly r v ws)
    (hy : r.tryWaypoints v lookahead ws = some y) : Traced live done y ∧ Adds r y := by
  induction ws with
  | nil => cases hy
  | cons w ws ih =>
    have ih := ih fun w' hw' => hws w' (List.mem_cons_of_mem _ hw')
    rw [tryWaypoints] at hy
    split at hy
    · exact ih hy
    · next st hst =>
      extract_lets fits depth at hy
      split at hy
      · exact ih hy
      · next hskip =>
        have hplace : w.place.offset ≠ (r.place v).offset := fun he =>
          hskip (Bool.or_eq_true _ _ ▸ Or.inl (beq_iff_eq.mpr he))
        split at hy
        · cases hy
        · split at hy
          · next hret =>
            cases hy
            exact returnTo_traced h hs hv (hws w List.mem_cons_self st hst hplace) hret
          · exact ih hy

/-- A branch that has a cost keeps it wherever it goes back to. -/
theorem costly_of_pos (h : Traced live done r) (hs : r.Sound text)
    (hv : (r.branch v).status.isHalted = false) (hpos : 0 < (r.top v).cost) (ws : List Waypoint) :
    Costly r v ws := by
  intro w _ st _ _ s hmem _
  refine Or.inl ?_
  rw [(h.route_headD hs hv hmem).cost_eq] at hpos
  exact hpos

/-! ## The states that a reader has come through

The first error of a text is dealt with on a branch that has no cost yet. Its top frame has just lost its
state, so below it are frames at the same place that have not. -/

/-- Notes the state that a path leads to, if it is not known yet. -/
def note (r : Reading) (acc : List Waypoint) (q : Path) : List Waypoint × Bool :=
  if maxDepth < q.depth then (acc, true)
  else
    let f := r.frame q.node
    let known := (acc.takeWhile fun w => decide (q.depth ≤ w.depth)).any fun w =>
      w.depth == q.depth && w.state == f.state
    (if known then acc else ⟨f.place, q.depth, f.state⟩ :: acc, false)

theorem waypoints_eq_walk (r : Reading) (v : Nat) :
    r.waypoints v = (r.walkFrom v r.note []).reverse := rfl

/-- Below the top frame, which is lost, the states `states` have been noted at the place `here`. What is
noted at another place lies deeper. -/
def Noted (here : Place) (states : List (Option State)) (acc : List Waypoint) : Prop :=
  ∃ pre top, acc = pre ++ [top] ∧ top.state = none ∧ top.depth = 0
    ∧ (∀ w ∈ pre, 1 ≤ w.depth ∧ (w.depth = 1 → w.place = here))
    ∧ ∀ st ∈ states, ∃ w ∈ pre, w.depth = 1 ∧ (w.state == st) = true

variable {here : Place} {states : List (Option State)} {acc : List Waypoint} {q : Path}

/-- What has been noted at the depth one is all looked through. -/
theorem takeWhile_noted {pre : List Waypoint} {top : Waypoint} (htop : top.depth = 0)
    (hpre : ∀ w ∈ pre, 1 ≤ w.depth) :
    (pre ++ [top]).takeWhile (fun w => decide (1 ≤ w.depth)) = pre := by
  rw [List.takeWhile_append_of_pos fun w hw => decide_eq_true (hpre w hw), List.takeWhile_cons,
    if_neg (by simp [htop]), List.append_nil]

theorem not_maxDepth_lt_one : ¬maxDepth < 1 := by decide

/-- A frame right below the top one is noted where it is. -/
theorem Noted.first (h : Noted here states acc) (hd : q.depth = 1)
    (hplace : (r.frame q.node).place = here) :
    Noted here ((r.frame q.node).state :: states) (r.note acc q).1 ∧ (r.note acc q).2 = false := by
  obtain ⟨pre, top, rfl, hnone, hzero, hpre, hstates⟩ := id h
  unfold note
  rw [hd, if_neg not_maxDepth_lt_one]
  refine ⟨?_, rfl⟩
  simp only [takeWhile_noted hzero fun w hw => (hpre w hw).1]
  split
  · next hknown =>
    obtain ⟨w, hw, heq⟩ := List.any_eq_true.mp hknown
    rw [Bool.and_eq_true, beq_iff_eq] at heq
    refine ⟨pre, top, rfl, hnone, hzero, hpre, fun st hst => ?_⟩
    rcases List.mem_cons.mp hst with rfl | hst
    · exact ⟨w, hw, heq⟩
    · exact hstates st hst
  · refine ⟨⟨(r.frame q.node).place, 1, (r.frame q.node).state⟩ :: pre, top, rfl, hnone, hzero, ?_, ?_⟩
    · intro w hw
      rcases List.mem_cons.mp hw with rfl | hw
      · exact ⟨Nat.le_refl _, fun _ => hplace⟩
      · exact hpre w hw
    · intro st hst
      rcases List.mem_cons.mp hst with rfl | hst
      · exact ⟨_, List.mem_cons_self, rfl, beq_state_iff.mpr rfl⟩
      · obtain ⟨w, hw, heq⟩ := hstates st hst
        exact ⟨w, List.mem_cons_of_mem _ hw, heq⟩

/-- Further down a state is noted only if it is a new one, or lies deeper. -/
theorem Noted.later (h : Noted here states acc) (hd : 1 ≤ q.depth)
    (hold : q.depth = 1 → ∃ st ∈ states, ((r.frame q.node).state == st) = true) :
    Noted here states (r.note acc q).1 := by
  obtain ⟨pre, top, rfl, hnone, hzero, hpre, hstates⟩ := id h
  unfold note
  split
  · exact h
  · simp only
    split
    · exact h
    · next hknown =>
      refine ⟨⟨(r.frame q.node).place, q.depth, (r.frame q.node).state⟩ :: pre, top, rfl, hnone, hzero,
        ?_, fun st hst => ?_⟩
      · intro w hw
        rcases List.mem_cons.mp hw with rfl | hw
        · refine ⟨hd, fun hone => absurd ?_ hknown⟩
          -- the state is known already
          have hone : q.depth = 1 := hone
          obtain ⟨st, hst, hsame⟩ := hold hone
          obtain ⟨w', hw', hd', hsame'⟩ := hstates st hst
          rw [hone, takeWhile_noted hzero fun w hw => (hpre w hw).1, List.any_eq_true]
          refine ⟨w', hw', ?_⟩
          rw [Bool.and_eq_true, beq_iff_eq, beq_state_iff]
          exact ⟨hd', (beq_state_iff.mp hsame').trans (beq_state_iff.mp hsame).symm⟩
        · exact hpre w hw
      · obtain ⟨w, hw, heq⟩ := hstates st hst
        exact ⟨w, List.mem_cons_of_mem _ hw, heq⟩

theorem Noted.foldl_first (paths : List Path) : ∀ (seen : List Waypoint × List Path)
    {states : List (Option State)}, Noted here states seen.1 →
    (∀ q ∈ paths, q.depth = 1 ∧ (r.frame q.node).place = here) →
    (∃ states', Noted here states' (paths.foldl (visit r.note) seen).1 ∧ (∀ st ∈ states, st ∈ states')
      ∧ ∀ q ∈ paths, (r.frame q.node).state ∈ states')
    ∧ ∀ q ∈ (paths.foldl (visit r.note) seen).2, q ∈ seen.2 ∨ q ∈ paths := by
  induction paths with
  | nil =>
    intro seen states h _
    exact ⟨⟨states, h, fun _ hst => hst, fun _ hq => by cases hq⟩, fun q hq => Or.inl hq⟩
  | cons q paths ih =>
    intro seen states h hpaths
    obtain ⟨hd, hplace⟩ := hpaths q List.mem_cons_self
    obtain ⟨hnoted, hgo⟩ := h.first hd hplace
    have hvisit : visit r.note seen q = ((r.note seen.1 q).1, q :: seen.2) := by
      unfold visit
      simp only [hgo, Bool.false_eq_true, if_false]
    rw [List.foldl_cons, hvisit]
    obtain ⟨⟨states', hn, hsub, hall⟩, hgoing⟩ := ih ((r.note seen.1 q).1, q :: seen.2) hnoted
      fun q' hq' => hpaths q' (List.mem_cons_of_mem _ hq')
    refine ⟨⟨states', hn, fun st hst => hsub st (List.mem_cons_of_mem _ hst), fun q' hq' => ?_⟩,
      fun q' hq' => ?_⟩
    · rcases List.mem_cons.mp hq' with rfl | hq'
      · exact hsub _ List.mem_cons_self
      · exact hall q' hq'
    · rcases hgoing q' hq' with hq' | hq'
      · rcases List.mem_cons.mp hq' with rfl | hq'
        · exact Or.inr List.mem_cons_self
        · exact Or.inl hq'
      · exact Or.inr (List.mem_cons_of_mem _ hq')

/-- The path leads below the top frame at no cost, and if nothing but comments have been passed since then
the state that it leads to has been noted. -/
structure Passes (live : Nat → Prop) (states : List (Option State)) (r : Reading) (q : Path) : Prop where
  route : Route live r 0 q
  one_le : 1 ≤ q.depth
  noted : q.depth = 1 → ∃ st ∈ states, ((r.frame q.node).state == st) = true

theorem Passes.follow (hq : Passes live states r q) (hl : Linked live Traces r) {l : Link}
    (hmem : l ∈ (r.frame q.node).links) : Passes live states r (q.follow l) := by
  obtain ⟨-, -, hj⟩ := hl _ hq.route.node_lt hq.route.live_node l hmem
  have hzero : (r.frame q.node).cost = 0 := by
    have := hq.route.cost_eq
    omega
  have hone := hq.one_le
  have hroute := hq.route.follow hl hmem
  unfold Path.follow at hroute ⊢
  cases ht : l.tree with
  | none =>
    rw [ht] at hroute
    exact ⟨hroute, Nat.le_add_left _ _, fun hd => absurd hd (by simp only; omega)⟩
  | some t =>
    rw [ht] at hroute
    by_cases hx : t.facts.extra = true
    · simp only [hx, if_true] at hroute ⊢
      refine ⟨hroute, hone, fun hd => ?_⟩
      -- what is set apart does not count, and leaves the state as it is
      obtain ⟨st, hst, hsame⟩ := hq.noted hd
      exact ⟨st, hst, beq_state_iff.mpr
        ((beq_state_iff.mp (hj.stays hzero t ht hx)).trans (beq_state_iff.mp hsame))⟩
    · simp only [hx, if_false, Bool.false_eq_true] at hroute ⊢
      exact ⟨hroute, Nat.le_add_left _ _, fun hd => absurd hd (by simp only; omega)⟩

theorem noted_walkFrom (h : Traced live done r) (hs : r.Sound text)
    (hv : (r.branch v).status.isHalted = false) (hz : (r.top v).cost = 0) (hlost : r.state v = none) :
    ∃ states, Noted (r.place v) states (r.walkFrom v r.note []) := by
  have htop := hs.branch_top_lt v
  have hlive := (h.branch v).live_top hv
  obtain ⟨m, hm⟩ : ∃ m, r.frames.size = m + 1 := Nat.exists_eq_succ_of_ne_zero (Nat.ne_of_gt hs.nonempty)
  -- the top frame
  have hstart : [(⟨(r.branch v).top, [], 0⟩ : Path)].foldl (visit r.note) ([], [])
      = ([⟨r.place v, 0, none⟩], [⟨(r.branch v).top, [], 0⟩]) := by
    rw [← hlost]
    rfl
  have hnoted : Noted (r.place v) [] [⟨r.place v, 0, none⟩] :=
    ⟨[], ⟨r.place v, 0, none⟩, rfl, rfl, rfl, (fun _ hw => by cases hw), fun _ hst => by cases hst⟩
  -- the frames below it, which are at the same place
  have hfirst : ∀ q ∈ onward r.frames [⟨(r.branch v).top, [], 0⟩],
      (q.depth = 1 ∧ (r.frame q.node).place = r.place v) ∧ Route live r 0 q := by
    intro q hq
    obtain ⟨q', hq', l, hl, rfl⟩ := mem_onward hq
    rw [List.mem_singleton.mp hq'] at hl ⊢
    have hl : l ∈ (r.frame (r.branch v).top).links := hl
    obtain ⟨-, -, hj⟩ := h.linked _ htop hlive l hl
    have hnone := (hj.lost hz hlost).1
    have hjoin := hs.joins _ htop l hl
    rw [hnone] at hjoin
    have hroute := (h.route_start hs hv).follow h.linked hl
    rw [hz] at hroute
    refine ⟨?_, hroute⟩
    unfold Path.follow
    rw [hnone]
    exact ⟨rfl, hjoin.1⟩
  unfold walkFrom
  rw [hm, walk, hstart]
  · show ∃ states, Noted _ states
      (walk r.frames r.note (m + 1) (onward r.frames [⟨(r.branch v).top, [], 0⟩]) _)
    generalize onward r.frames [⟨(r.branch v).top, [], 0⟩] = paths at hfirst
    cases paths with
    | nil => exact ⟨[], hnoted⟩
    | cons q paths =>
      rw [walk]
      · obtain ⟨⟨states, hn, -, hall⟩, hgoing⟩ := Noted.foldl_first (r := r) (q :: paths)
          ([⟨r.place v, 0, none⟩], []) hnoted fun q' hq' => (hfirst q' hq').1
        refine ⟨states, walk_induction (P := Passes live states r) (Q := Noted (r.place v) states)
          (fun acc q hacc hq => hacc.later hq.one_le hq.noted)
          (fun q hq l hl => hq.1.follow h.linked hl) _ _ _ ?_ hn⟩
        intro q' hq'
        obtain ⟨q'', hq'', l, hl, rfl⟩ := mem_onward hq'
        have hmem : q'' ∈ q :: paths :=
          (hgoing q'' (List.mem_reverse.mp hq'')).resolve_left fun hnil => by cases hnil
        obtain ⟨⟨hd, -⟩, hroute⟩ := hfirst q'' hmem
        exact Passes.follow ⟨hroute, Nat.le_of_eq hd.symm, fun _ =>
          ⟨_, hall q'' hmem, beq_state_iff.mpr rfl⟩⟩ h.linked hl
      · simp
  · simp

/-- The states that a reader which has just got lost can go back to, at another place, lie deeper than
the comments in front of it. -/
theorem two_le_depth (h : Traced live done r) (hs : r.Sound text)
    (hv : (r.branch v).status.isHalted = false) (hz : (r.top v).cost = 0) (hlost : r.state v = none)
    {wp : Waypoint} (hmem : wp ∈ r.waypoints v) {st : State} (hst : wp.state = some st)
    (hplace : wp.place.offset ≠ (r.place v).offset) : 2 ≤ wp.depth := by
  obtain ⟨states, pre, top, heq, hnone, -, hpre, -⟩ := noted_walkFrom h hs hv hz hlost
  rw [waypoints_eq_walk, List.mem_reverse, heq, List.mem_append, List.mem_singleton] at hmem
  rcases hmem with hmem | rfl
  · obtain ⟨hone, hhere⟩ := hpre wp hmem
    rcases Nat.lt_or_eq_of_le hone with hlt | he
    · exact hlt
    · exact absurd (congrArg Place.offset (hhere he.symm)) hplace
  · rw [hst] at hnone
    cases hnone

/-- From a reader that has just got lost the way leads over the link without a tree, then over comments,
and then over something that counts. -/
theorem exists_part_of_depth (h : Traced live done r) (hs : r.Sound text)
    (hv : (r.branch v).status.isHalted = false) (hz : (r.top v).cost = 0) (hlost : r.state v = none)
    (hd : 2 ≤ depth) {s : Nat × List (List Tree)} (hmem : s ∈ r.slices v depth) :
    ∃ t ∈ s.2.headD [], t.facts.extra = false := by
  obtain ⟨hne, hways⟩ := slices_induction
    (P := fun q => Route live r 0 q ∧ ((q.depth = 0 ∧ q.node = (r.branch v).top)
      ∨ (q.depth = 1 ∧ (r.frame q.node).state ≠ none) ∨ ∃ t ∈ q.trees, t.facts.extra = false))
    ⟨hz ▸ h.route_start hs hv, Or.inl ⟨rfl, rfl⟩⟩ (by
      rintro q ⟨hroute, hq⟩ - l hl
      obtain ⟨-, -, hj⟩ := h.linked _ hroute.node_lt hroute.live_node l hl
      have hzero : (r.frame q.node).cost = 0 := by
        have := hroute.cost_eq
        omega
      refine ⟨hroute.follow h.linked hl, Or.inr ?_⟩
      unfold Path.follow
      rcases hq with ⟨hd, hnode⟩ | ⟨hd, hne⟩ | ⟨t, ht, hx⟩
      · have hlost' : (r.frame q.node).state = none := by rw [hnode]; exact hlost
        obtain ⟨hnone, hbelow⟩ := hj.lost hzero hlost'
        rw [hnone]
        exact Or.inl ⟨by simp only; omega, hbelow⟩
      · cases ht : l.tree with
        | none => exact absurd ht (hj.present hne)
        | some t =>
          by_cases hx : t.facts.extra = true
          · left
            refine ⟨by simp only [hx, if_true]; exact hd, fun hnone => hne ?_⟩
            have hsame := beq_state_iff.mp (hj.stays hzero t ht hx)
            rw [hnone] at hsame
            exact Option.map_eq_none_iff.mp hsame.symm
          · exact Or.inr ⟨t, List.mem_cons_self, Bool.eq_false_iff.mpr hx⟩
      · right
        split
        · exact ⟨t, ht, hx⟩
        · exact ⟨t, List.mem_cons_of_mem _ ht, hx⟩) hmem
  cases halt : s.2 with
  | nil => exact absurd halt hne
  | cons trees others =>
    rcases (hways trees (halt ▸ List.mem_cons_self)).2 with ⟨hd', -⟩ | ⟨hd', -⟩ | hpart
    · simp only at hd'; omega
    · simp only at hd'; omega
    · exact hpart

/-- What the first error of a text goes back over costs something. -/
theorem costly_waypoints (h : Traced live done r) (hs : r.Sound text)
    (hv : (r.branch v).status.isHalted = false) (hlost : r.state v = none) :
    Costly r v (r.waypoints v) := by
  by_cases hz : (r.top v).cost = 0
  · intro wp hmem st hst hplace s hs' _
    have hd := two_le_depth h hs hv hz hlost hmem hst hplace
    exact Or.inr (exists_part_of_depth h hs hv hz hlost (by split <;> omega) hs')
  · exact costly_of_pos h hs hv (Nat.pos_of_ne_zero hz) _

end SpanIndex.Syntax.Reading
