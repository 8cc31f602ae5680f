import SpanIndex.Proofs.Syntax.Return

/-!
# After a syntax error

A branch has to answer for an error if it has a cost, or if it is lost and has nowhere to go back to
(`View.Marked`). Once all branches have to, this stays so: whatever is finished from then on has a fault.
-/

namespace SpanIndex.Syntax

/-! ## Finishing -/

namespace Tree

variable {trees : List Tree} {root t : Tree} {text : List Char}

/-- A file that is made of trees of which one has a fault has a fault. -/
theorem hasFault_of_spliceLast? (h : spliceLast? trees = some root) (ht : t ∈ trees)
    (hf : t.hasFault = true)
    (hlast : ∀ s, (trees.filter fun t => !t.facts.extra).getLast? = some s → s.facts.missing = false) :
    root.hasFault = true := by
  unfold spliceLast? at h
  extract_lets split at h
  obtain ⟨s, hs, rfl⟩ := Option.map_eq_some_iff.mp h
  have happ : split.1 ++ split.2 = trees := Reading.splitTrailing_append trees
  obtain ⟨front, hfront⟩ := List.getLast?_eq_some_iff.mp hs
  rw [← happ, hfront, List.mem_append, List.mem_append, List.mem_singleton] at ht
  rw [hfront, List.dropLast_concat]
  rcases ht with (ht | rfl) | ht
  · exact hasFault_of_child (List.mem_append_left _ (List.mem_append_left _ ht)) hf
  · rcases hasFault_iff.mp hf with hl | hm | ⟨c, hc, hfc⟩
    · exact hasFault_of_label hl
    · rw [hlast _ (Reading.getLast?_splitTrailing trees ▸ hs)] at hm
      cases hm
    · exact hasFault_of_child (List.mem_append_left _ (List.mem_append_right _ hc)) hfc
  · exact hasFault_of_child (List.mem_append_right _ ht) hf

/-- A file has been read. -/
theorem Sound.present_of_isFile (h : t.Sound text) (hf : t.IsFile) : t.facts.missing = false := by
  cases h with
  | token _ present _ _ => exact present
  | absent _ _ _ label =>
    rcases hf with ⟨hl, -⟩ | ⟨_, hl, -, -⟩ <;> cases label.symm.trans hl
  | phrase _ present _ _ _ _ _ _ => exact present
  | fault _ present _ _ _ _ => exact present

end Tree

namespace Reading

variable {text : List Char} {live : Nat → Prop} {done : Option Tree → Prop} {r x y : Reading}
  {k u v w c : Nat} {b : Branch} {st : State} {p : Place} {token root : Tree} {below : Option State}

theorem setStatus_push (hv : v < r.size) (s : Status) (t : Option Tree) (st : Option State) :
    (r.push v t st).setStatus v s = (r.setStatus v s).push v t st := by
  have hb : (r.setBranch v { r.branch v with status := s }).branch v
      = { r.branch v with status := s } := branch_setBranch hv
  have hpushed : (r.setBranch v { r.branch v with status := s }).pushed v t st = r.pushed v t st := by
    unfold pushed Reading.top
    rw [hb]
    rfl
  have hnew : (r.push v t st).branch v = { r.branch v with
      top := r.frames.size
      countAtError := if t.isNone then (r.pushed v t st).count else (r.branch v).countAtError } := by
    rw [push_eq]
    exact branch_setBranch hv
  unfold setStatus
  rw [hnew, push_eq, push_eq, hb, hpushed]
  unfold setBranch
  simp only [List.set_set]

/-- The files that a branch has read when it comes to the end of the text. -/
def rootsOf (r : Reading) (v : Nat) (token : Tree) : List Tree :=
  ((r.push v (some token) (some State.start)).allTrees v).filterMap Tree.spliceLast?

theorem accept_eq (hv : v < r.size) (token : Tree) :
    r.accept v token = { (r.setStatus v .halted).push v (some token) (some State.start) with
      finished := (r.rootsOf v token).foldl betterTree r.finished
      finishedCount := r.finishedCount + (r.rootsOf v token).length } := by
  rw [← setStatus_push hv]
  rfl

theorem status_halted (hv : v < r.size) : ((r.setStatus v .halted).branch v).status = .halted := by
  unfold setStatus
  rw [branch_setBranch hv]

theorem accept_traced (h : Traced live done (r.setStatus v .halted)) (hs : r.Sound text)
    (hv : v < r.size) (hdone : done ((r.rootsOf v token).foldl betterTree r.finished)) :
    Traced (fun n => live n ∧ n ≠ r.frames.size) done (r.accept v token) := by
  have h1 := h.push_halted (v := v) (hs.setStatus fun _ hp => by cases hp)
    (by rw [status_halted hv]; rfl) (some token) (some State.start)
  rw [accept_eq hv]
  exact ⟨h1.linked.of_frames rfl, h1.live_later, h1.bottom, h1.branches, hdone⟩

theorem view_accept_ne (hs : r.Sound text) (hv : v < r.size) (hu : u ≠ v) :
    (r.accept v token).view u = r.view u := by
  have hstatus : (r.setStatus v .halted).Sound text := hs.setStatus fun _ hp => by cases hp
  rw [accept_eq hv]
  show ((r.setStatus v .halted).push v (some token) (some State.start)).view u = _
  rw [view_push_ne hstatus hu]
  exact view_setBranch_ne hu

theorem size_accept (hv : v < r.size) : (r.accept v token).size = r.size := by
  rw [accept_eq hv]
  show ((r.setStatus v .halted).push v (some token) (some State.start)).size = _
  rw [size_push]
  exact size_setBranch _ _ _

theorem status_accept (hv : v < r.size) :
    ((r.accept v token).view v).status = .halted := by
  rw [accept_eq hv]
  show (((r.setStatus v .halted).push v (some token) (some State.start)).branch v).status = _
  rw [status_push, status_halted hv]

/-- Where a branch costs something, the trees on every way down from it hold a fault. -/
theorem exists_fault_of_allTrees (h : Traced live done r) (hs : r.Sound text) (hv : v < r.size)
    (hhalt : (r.branch v).status.isHalted = false) (hpos : 0 < (r.top v).cost) {trees : List Tree}
    (ht : trees ∈ (r.push v (some token) (some State.start)).allTrees v) :
    ∃ t ∈ trees, t.hasFault = true := by
  have hend := allTrees_induction
    (P := fun q => q.node = r.frames.size ∧ q.trees = []
      ∨ ∃ ts, q.trees = ts ++ [token] ∧ Route live r (r.top v).cost ⟨q.node, ts, 0⟩)
    (Or.inl ⟨top_push hv, rfl⟩) ?_ ht
  · obtain ⟨q, ⟨hnode, -⟩ | ⟨ts, hts, hroute⟩, rfl, hnil⟩ := hend
    · rw [hnode, frame_push, links_pushed] at hnil
      cases hnil
    · rw [frame_push_lt hroute.node_lt] at hnil
      have hcost := hroute.cost_eq
      rw [h.bottom _ hroute.node_lt hnil, Nat.zero_add] at hcost
      obtain ⟨t, hmem, hpos'⟩ := Tree.exists_cost_of_costs (hcost ▸ hpos)
      exact ⟨t, hts ▸ List.mem_append_left _ hmem, (hroute.honest t hmem).hasFault hpos'⟩
  · rintro q (⟨hnode, htrees⟩ | ⟨ts, hts, hroute⟩) l hl
    · rw [hnode, frame_push, links_pushed, List.mem_singleton] at hl
      subst hl
      refine Or.inr ⟨[], ?_, h.route_start hs hhalt⟩
      rw [Path.follow, htrees]
      rfl
    · rw [frame_push_lt hroute.node_lt] at hl
      have hnext := hroute.follow h.linked hl
      unfold Path.follow at hnext ⊢
      cases ht : l.tree with
      | none =>
        rw [ht] at hnext
        exact Or.inr ⟨ts, hts, ⟨hnext.node_lt, hnext.live_node, hnext.cost_eq, hnext.honest⟩⟩
      | some t =>
        rw [ht] at hnext
        exact Or.inr ⟨t :: ts, congrArg (t :: ·) hts,
          ⟨hnext.node_lt, hnext.live_node, hnext.cost_eq, hnext.honest⟩⟩

/-- A file that is read on a branch that costs something has a fault. -/
theorem hasFault_of_rootsOf {marked : Nat → Prop} (h : Traced live done r) (hs : r.Sound text)
    (hv : Stands r v p below) (ht : TokenAt text p token) (hx : token.facts.extra = true)
    (hfile : r.OnFile marked) (htop : marked (r.branch v).top) (hpos : 0 < (r.top v).cost)
    (hroot : root ∈ r.rootsOf v token) : root.hasFault = true := by
  obtain ⟨trees, htrees, hsplice⟩ := List.mem_filterMap.mp hroot
  obtain ⟨t, hmem, hfault⟩ := exists_fault_of_allTrees h hs hv.lt_size
    (not_halted_of_active hv.active) hpos htrees
  obtain ⟨-, hsound, hlast⟩ := allTrees_complete (hv.push_end hs ht hx)
    (hfile.push (some State.start) hs htop hx) (Or.inl (top_push hv.lt_size)) htrees
  refine Tree.hasFault_of_spliceLast? hsplice hmem hfault fun s hs' => ?_
  have hmem' : s ∈ trees := (List.mem_filter.mp (List.mem_of_getLast? hs')).1
  exact (hsound s hmem').present_of_isFile (hlast s hs').1

/-- A lost reader that comes to the end of the text has read nothing but an error. -/
theorem rootsOf_failed (hs : r.Sound text) (hv : v < r.size) (hx : token.facts.extra = true)
    (hroot : root ∈ (r.push v (some (Tree.build .error none (r.place v) [])) (some State.start)).rootsOf
      v token) : 0 < root.facts.cost ∧ root.hasFault = true := by
  obtain ⟨trees, htrees, hsplice⟩ := List.mem_filterMap.mp hroot
  generalize hfail : Tree.build .error none (r.place v) [] = failure at htrees
  have hfx : failure.facts.extra = false := by rw [← hfail]; rfl
  have hfl : failure.facts.label = .error := by rw [← hfail]; rfl
  have hv1 : v < (r.push v (some failure) (some State.start)).size := by
    rw [size_push]; exact hv
  have hsize1 : (r.push v (some failure) (some State.start)).frames.size = r.frames.size + 1 := by
    rw [frames_push, Array.size_push]
  -- the end of the text lies on the error, and that on what was read before
  have hend := allTrees_induction
    (P := fun q => q.node = r.frames.size + 1 ∧ q.trees = []
      ∨ q.node = r.frames.size ∧ q.trees = [token]
      ∨ q.node < r.frames.size ∧ ∃ ts, q.trees = ts ++ [failure, token])
    (Or.inl ⟨(top_push hv1).trans hsize1, rfl⟩) ?_ htrees
  · obtain ⟨q, ⟨hnode, -⟩ | ⟨hnode, -⟩ | ⟨-, ts, hts⟩, rfl, hnil⟩ := hend
    · rw [hnode, ← hsize1, frame_push, links_pushed] at hnil
      cases hnil
    · rw [hnode, frame_push_lt (by omega), frame_push, links_pushed] at hnil
      cases hnil
    · unfold Tree.spliceLast? at hsplice
      extract_lets split at hsplice
      obtain ⟨s, hs', rfl⟩ := Option.map_eq_some_iff.mp hsplice
      have hlast : split.1.getLast? = some failure := by
        show (Tree.splitTrailing q.trees).1.getLast? = _
        rw [getLast?_splitTrailing, hts]
        simp [List.filter_append, hfx, hx]
      obtain rfl := Option.some.inj (hlast.symm.trans hs')
      rw [hfl]
      exact ⟨Tree.pos_cost_build_of_fault rfl, Tree.hasFault_of_label rfl⟩
  · rintro q (⟨hnode, htrees'⟩ | ⟨hnode, htrees'⟩ | ⟨hnode, ts, hts⟩) l hl
    · rw [hnode, ← hsize1, frame_push, links_pushed, List.mem_singleton] at hl
      subst hl
      refine Or.inr (Or.inl ⟨top_push hv, ?_⟩)
      rw [Path.follow, htrees']
    · rw [hnode, frame_push_lt (by omega), frame_push, links_pushed, List.mem_singleton] at hl
      subst hl
      refine Or.inr (Or.inr ⟨hs.branch_top_lt v, [], ?_⟩)
      rw [Path.follow, htrees']
      rfl
    · rw [frame_push_lt (by omega), frame_push_lt hnode] at hl
      have hlt := hs.below_lt _ hnode l hl
      unfold Path.follow
      cases l.tree with
      | none => exact Or.inr (Or.inr ⟨hlt, ts, hts⟩)
      | some t => exact Or.inr (Or.inr ⟨hlt, t :: ts, congrArg (t :: ·) hts⟩)

/-! ## Being lost -/

/-- The branch has to answer for an error: it has a cost, or it is lost and can only skip what comes. -/
def View.Marked (i : View) : Prop :=
  i.status.isHalted = true ∨ 0 < i.cost
    ∨ (i.status = .active ∧ i.state = none ∧ i.waypoints = none)

/-- The branch `v` of the first `n` has been dealt with. The others look as they did, and those that are
new have to answer for an error. -/
structure Strikes (v n : Nat) (r x : Reading) : Prop where
  le_size : n ≤ x.size
  view_eq : ∀ u, u < n → u ≠ v → x.view u = r.view u
  marked : ∀ u, n ≤ u → u < x.size → (x.view u).Marked

variable {n : Nat}

theorem Strikes.trans (h : Strikes v n r x) (h' : Strikes v x.size x y) (hv : v < n) :
    Strikes v n r y where
  le_size := Nat.le_trans h.le_size h'.le_size
  view_eq := fun u hu hne => by
    rw [h'.view_eq u (Nat.lt_of_lt_of_le hu h.le_size) hne]
    exact h.view_eq u hu hne
  marked := fun u hu hlt => by
    by_cases hux : u < x.size
    · rw [h'.view_eq u hux (by omega)]
      exact h.marked u hu hux
    · exact h'.marked u (Nat.le_of_not_lt hux) hlt

theorem Adds.strikes (h : Adds r x) (hs : r.Sound text) (v : Nat) : Strikes v r.size r x where
  le_size := h.le_size
  view_eq := fun _ hu _ => h.toRetains.view hs hu
  marked := fun u hu hlt => Or.inr (Or.inl (h.pos_new u hu hlt))

/-- Only the branch itself is changed. -/
theorem strikes_of_view_ne (hsize : y.size = x.size) (hview : ∀ u, u ≠ v → y.view u = x.view u) :
    Strikes v x.size x y where
  le_size := Nat.le_of_eq hsize.symm
  view_eq := fun u _ hu => hview u hu
  marked := fun u hu hlt => by omega

/-- Skipping costs something, wherever it leads. -/
theorem traces_skipped {here : Place} {trees : List Tree} (r : Reading) (v : Nat)
    (h : ∀ t ∈ trees, t.Honest) :
    Traces (r.pushed v (some (Tree.build .skipped none here trees)) none) (r.top v)
      (some (Tree.build .skipped none here trees)) := by
  have hpos : (r.pushed v (some (Tree.build .skipped none here trees)) none).cost ≠ 0 :=
    Nat.ne_of_gt (Nat.lt_of_lt_of_le (Tree.pos_cost_build_of_fault rfl) (Nat.le_add_left _ _))
  exact {
    cost_eq := rfl
    honest := fun _ hx => Option.some.inj hx ▸ Tree.honest_build _ _ _ h
    apart := fun _ hx hl => by rw [← Option.some.inj hx] at hl; cases hl
    present := fun hne => absurd rfl hne
    lost := fun hz => absurd hz hpos
    stays := fun hz => absurd hz hpos }

theorem TokenAt.honest (ht : TokenAt text p token) (hcost : token.facts.cost = 0) : token.Honest :=
  Tree.honest_token hcost ht.leaf fun hl => by rw [ht.extra_eq, hl]; rfl

/-- A stretch of text is skipped on the branch `v`. -/
theorem push_skipped_strikes (h : Traced live done x) (hs : x.Sound text) (hv : v < x.size)
    (hhalt : (x.branch v).status.isHalted = false) (trees : List Tree) (ht : ∀ t ∈ trees, t.Honest) :
    let y := x.push v (some (Tree.build .skipped none (x.place v) trees)) none
    Traced live done y ∧ Strikes v x.size x y ∧ (y.view v).Marked := by
  intro y
  refine ⟨h.push (hs.branch_top_lt v) hhalt (traces_skipped x v ht),
    strikes_of_view_ne (size_push ..) fun u hu => view_push_ne hs hu, Or.inr (Or.inl ?_)⟩
  show 0 < (y.top v).cost
  rw [cost_push hv]
  exact Nat.lt_of_lt_of_le (Tree.pos_cost_build_of_fault rfl) (Nat.le_add_left _ _)

/-- A branch that is halted needs no other mark. -/
theorem halt_strikes (h : Traced live done x) (hv : v < x.size) :
    Traced live done (x.setStatus v .halted) ∧ Strikes v x.size x (x.setStatus v .halted)
      ∧ ((x.setStatus v .halted).view v).Marked := by
  refine ⟨h.halt v, strikes_of_view_ne (size_setBranch ..) fun u hu => view_setBranch_ne hu, Or.inl ?_⟩
  unfold setStatus
  rw [view_setBranch hv]
  rfl

/-- What is finished stays as it should be if files with faults are added. -/
def Absorbs (done : Option Tree → Prop) : Prop :=
  ∀ (best : Option Tree) (roots : List Tree), done best →
    (∀ root ∈ roots, 0 < root.facts.cost ∧ root.hasFault = true) → done (roots.foldl betterTree best)

theorem accept_failed_strikes (habs : Absorbs done) (h : Traced live done x) (hs : x.Sound text)
    (hv : Stands x v p below) (hx : token.facts.extra = true) :
    let y := (x.push v (some (Tree.build .error none (x.place v) [])) (some State.start)).accept v token
    (∃ live', Traced live' done y) ∧ Strikes v x.size x y ∧ (y.view v).Marked := by
  obtain ⟨h1, hv1⟩ := hv.push_failed hs
  have hhalted : (x.setStatus v .halted).Sound text := hs.setStatus fun _ hp => by cases hp
  have htraced := (h.halt v).push_halted (v := v) hhalted (by rw [status_halted hv.lt_size]; rfl)
    (some (Tree.build .error none (x.place v) [])) (some State.start)
  rw [← setStatus_push hv.lt_size] at htraced
  have hdone := habs _ _ htraced.finished fun root hroot => rootsOf_failed hs hv.lt_size hx hroot
  refine ⟨⟨_, accept_traced htraced h1 hv1.lt_size hdone⟩, strikes_of_view_ne ?_ fun u hu => ?_,
    Or.inl ?_⟩
  · rw [size_accept hv1.lt_size, size_push]
  · rw [view_accept_ne h1 hv1.lt_size hu, view_push_ne hs hu]
  · rw [status_accept hv1.lt_size]
    rfl

/-- A lost reader goes back at a price, skips what comes, or gives up. -/
theorem recover_strikes (habs : Absorbs done) (h : Traced live done r) (hs : r.Sound text)
    (hv : Stands r v p below) (ht : TokenAt text p token) (hcost : token.facts.cost = 0)
    (hcostly : Costly r v ((r.branch v).waypoints.getD [])) :
    (∃ live', Traced live' done (r.recover v token)) ∧ Strikes v r.size r (r.recover v token)
      ∧ ((r.recover v token).view v).Marked := by
  unfold recover
  extract_lets cost progress back x r1 skipped
  obtain ⟨htx, hadds, hsx⟩ : Traced live done x ∧ Adds r x ∧ x.Sound text := by
    show Traced live done (back.getD r) ∧ Adds r (back.getD r) ∧ (back.getD r).Sound text
    cases hback : back with
    | none => exact ⟨h, Adds.refl r, hs⟩
    | some y =>
      have hy := (Option.ite_none_left_eq_some.mp hback).2
      obtain ⟨hty, hay⟩ := tryWaypoints_traced h hs (not_halted_of_active hv.active) _ hcostly hy
      exact ⟨hty, hay, (tryWaypoints_sound hs _ hy).1⟩
  have hvx : Stands x v p below := hadds.toKeeps.stands hs hv hv.lt_size
  have hhalt := not_halted_of_active hvx.active
  -- it is enough to look at what is done after going back
  have hafter : ∀ y, (∃ live', Traced live' done y) ∧ Strikes v x.size x y ∧ (y.view v).Marked →
      (∃ live', Traced live' done y) ∧ Strikes v r.size r y ∧ (y.view v).Marked :=
    fun y hy => ⟨hy.1, (hadds.strikes hs v).trans hy.2.1 hv.lt_size, hy.2.2⟩
  have hgiveUp := halt_strikes htx hvx.lt_size
  have htoken := (TokenAt.honest ht hcost).commentAsExtra
  have hone : ∀ t ∈ [token.commentAsExtra], t.Honest := fun t hmem =>
    List.mem_singleton.mp hmem ▸ htoken
  split
  · next hend =>
    exact hafter _ (accept_failed_strikes habs htx hsx hvx (by rw [ht.extra_eq]; exact hend))
  · split
    · exact hafter _ ⟨⟨live, hgiveUp.1⟩, hgiveUp.2⟩
    · split
      · exact hafter _ ⟨⟨live, hgiveUp.1⟩, hgiveUp.2⟩
      · split
        · obtain ⟨hty, hrest⟩ := push_skipped_strikes htx hsx hvx.lt_size hhalt _ hone
          exact hafter _ ⟨⟨live, hty⟩, hrest⟩
        · next node alternatives hslice =>
          have hroute := htx.route_headD hsx hhalt
            (List.mem_of_head? (Option.ite_none_left_eq_some.mp hslice).2)
          extract_lets r2 trees
          obtain ⟨hs2, hv2⟩ : r2.Sound text ∧ Stands r2 v _ _ :=
            hsx.moveTo (b := x.branch v) hvx.lt_size hroute.node_lt
          have ht2 : Traced live done r2 :=
            htx.setBranch ⟨fun _ => hroute.live_node, fun _ hp => by cases hp⟩
          have hmoved : Strikes v x.size x r2 :=
            strikes_of_view_ne (size_setBranch ..) fun u hu => view_setBranch_ne hu
          obtain ⟨hty, hstr, hmark⟩ := push_skipped_strikes ht2 hs2 hv2.lt_size
            (not_halted_of_active hv2.active) trees fun t hmem => by
              rcases List.mem_append.mp hmem with hmem | hmem
              · exact hroute.honest t hmem
              · rw [List.mem_singleton.mp hmem]
                exact Tree.honest_build _ _ _ hone
          exact hafter _ ⟨⟨live, hty⟩, hmoved.trans hstr hvx.lt_size, hmark⟩

/-! ## Running into an error -/

theorem waypoints_setBranch (hb : b.top = (r.branch v).top) (hb' : b.status = (r.branch v).status) :
    (r.setBranch v b).waypoints v = r.waypoints v := by
  rw [waypoints_eq_walk, waypoints_eq_walk]
  unfold walkFrom
  rw [(branch_setBranch_same hb hb' v).1]
  rfl

/-- The branch `v` and all that has come of it have lost their states. If `v` had cost nothing before, then
they have nowhere to go back to. -/
theorem Worked.strikes {ws : List Nat} (h : Worked text live done (Working c (c = 0)) v n r x)
    (hs : r.Sound text) (hn : n ≤ x.size) (hws : ∀ u, u < x.size → (u ∈ ws ↔ InWork v n u))
    (hl : Loses ws x y) : Strikes v n r y := by
  refine ⟨Nat.le_trans hn hl.le_size, fun u hu hne => ?_, fun u hu hlt => ?_⟩
  · have hux : u < x.size := Nat.lt_of_lt_of_le hu hn
    have hnot : u ∉ ws := fun hmem =>
      ((hws u hux).mp hmem).elim hne fun hle => absurd hu (Nat.not_lt.mpr hle)
    rw [hl.view_eq u hux hnot]
    rcases Nat.lt_or_gt_of_ne hne with hlt | hgt
    · exact h.retains.view hs hlt
    · exact h.spared u hgt hu
  · by_cases hux : u < x.size
    · have hlooks := h.looks u (Or.inr hu) hux
      rw [hl.lost u hux ((hws u hux).mpr (Or.inr hu))]
      rcases Nat.eq_zero_or_pos c with hz | hpos
      · exact Or.inr (Or.inr ⟨hlooks.active, rfl, hlooks.waypoints_eq hz⟩)
      · exact Or.inr (Or.inl (hlooks.cost_eq ▸ hpos))
    · exact Or.inr (Or.inl (hl.pos_new u (Nat.le_of_not_lt hux) hlt))

/-- Merging the branches that are new into `v` leaves the others as they are. -/
theorem foldl_merge?_strikes {ws : List Nat} (hv : v < n) : ∀ {x : Reading}, x.Sound text →
    Traced live done x → Strikes v n r x →
    let y := ws.foldl (fun r _ => (r.merge? v n).getD r) x
    Traced live done y ∧ Strikes v n r y ∧ y.view v = x.view v := by
  induction ws with
  | nil => intro x _ h hx; exact ⟨h, hx, rfl⟩
  | cons w ws ih =>
    intro x hs h hx
    rw [List.foldl_cons]
    cases hm : x.merge? v n with
    | none => exact ih hs h hx
    | some y =>
      obtain ⟨hy, hd⟩ := h.merge? hs hm
      have hstrikes : Strikes v n r y := by
        refine ⟨?_, fun u hu hne => ?_, fun u hu hlt => ?_⟩
        · have := hd.lt_size
          rw [hd.size_eq]
          omega
        · rw [hd.view_lt hu]
          exact hx.view_eq u hu hne
        · rw [hd.size_eq] at hlt
          rw [hd.view_ge hu]
          exact hx.marked (u + 1) (by omega) (by omega)
      obtain ⟨hz, hsz, hvz⟩ := ih (merge?_sound hs hm).1 hy hstrikes
      exact ⟨hz, hsz, hvz.trans (hd.view_lt hv)⟩

/-- A token that does not fit is dealt with on the branch `v`. If that has not cost anything before, then
this is its first error. -/
theorem handleError_strikes (habs : Absorbs done) (h : Traced live done r) (hs : r.Sound text)
    (hv : Stands r v p below) (ht : TokenAt text p token) (hcost : token.facts.cost = 0)
    (hfirst : (r.top v).cost = 0 → r.state v ≠ none ∧ (r.branch v).waypoints = none) :
    (∃ live', Traced live' done (r.handleError v token)) ∧ Strikes v r.size r (r.handleError v token)
      ∧ ((r.handleError v token).view v).Marked := by
  unfold handleError
  extract_lets older r1 closed r2 r3 b r4
  obtain ⟨hs1, hfront⟩ : r1.Sound text ∧ Front v older p r1 := hv.closeAll_front hs _
  have hw1 : Worked text live done (Working (r.top v).cost ((r.top v).cost = 0)) v older r r1 := by
    refine closeAll_worked none (fun hne => absurd rfl hne) hv.lt_size _ v 0 false r
      ⟨hs, h, Retains.refl (Nat.le_of_lt hv.lt_size), Or.inl (Nat.le_refl _), fun _ _ _ => rfl, ?_⟩
      (Or.inl rfl)
    intro u hu hlt
    obtain rfl : u = v := hu.resolve_right (Nat.not_le.mpr hlt)
    exact ⟨hv.active, rfl, fun hz => (hfirst hz).1, fun hz => (hfirst hz).2⟩
  -- all branches that have come of `v` lose their states
  have hclosed : ∀ u, u < r1.size → (u ∈ closed ↔ InWork v older u) := by
    intro u hu
    show u ∈ v :: (List.range r1.size).filter _ ↔ _
    rw [List.mem_cons, List.mem_filter, List.mem_range, decide_eq_true_iff]
    exact or_congr_right ⟨fun h => h.2, fun h => ⟨hu, h⟩⟩
  have hnodup : closed.Nodup := by
    refine List.nodup_cons.mpr ⟨fun hmem => ?_, List.nodup_range.filter _⟩
    have := decide_eq_true_iff.mp (List.mem_filter.mp hmem).2
    exact absurd hv.lt_size (Nat.not_lt.mpr this)
  obtain ⟨ht2, hloses⟩ : Traced live done r2 ∧ Loses closed r1 r2 :=
    foldl_loseState_loses token hnodup hs1 hw1.traced fun w hw => by
      obtain ⟨hlt, hat, hstands⟩ := hfront.stands hw
      have hlooks := hw1.looks w hat hlt
      exact ⟨hstands, fun hz => hlooks.state_ne (hlooks.cost_eq.symm.trans hz)⟩
  obtain ⟨hs2, hv2⟩ : r2.Sound text ∧ ∃ x, Stands r2 v p x :=
    foldl_loseState_sound (r1, false) hs1 (fun w hw => (hfront.stands hw).2.2)
      (hfront.stands List.mem_cons_self).2.2
  have hstrikes2 : Strikes v older r r2 := hw1.strikes hs hfront.le_size hclosed hloses
  have hv1 : v < r1.size := Nat.lt_of_lt_of_le hv.lt_size hfront.le_size
  have hlost2 : (r2.view v).state = none := by
    rw [hloses.lost v hv1 List.mem_cons_self]
  obtain ⟨ht3, hstrikes3, hview3⟩ : Traced live done r3 ∧ Strikes v older r r3
      ∧ r3.view v = r2.view v := foldl_merge?_strikes hv.lt_size hs2 ht2 hstrikes2
  obtain ⟨hs3, x, hv3⟩ : r3.Sound text ∧ ∃ x, Stands r3 v p x :=
    foldl_merge?_sound hfront.first_lt hs2 hv2
  obtain rfl : x = none := hv3.state_eq.symm.trans ((congrArg View.state hview3).trans hlost2)
  -- and the reader goes on from there
  have hs4 : r4.Sound text := hs3.setBranch (hs3.branch v)
  have ht4 : Traced live done r4 :=
    ht3.setBranch ⟨(ht3.branch v).live_top, (ht3.branch v).paused⟩
  have hb4 : r4.branch v = { r3.branch v with waypoints := some (r3.waypoints v) } :=
    branch_setBranch hv3.lt_size
  have hv4 : Stands r4 v p none := hv3.setBranch rfl rfl
  have hways : r4.waypoints v = r3.waypoints v := waypoints_setBranch rfl rfl
  have hcostly : Costly r4 v ((r4.branch v).waypoints.getD []) := by
    rw [hb4, Option.getD_some, ← hways]
    exact costly_waypoints ht4 hs4 (not_halted_of_active hv4.active) hv4.state_eq
  have hstrikes4 : Strikes v r3.size r3 r4 :=
    strikes_of_view_ne (size_setBranch ..) fun u hu => view_setBranch_ne hu
  obtain ⟨htraced, hstrikes, hmarked⟩ := recover_strikes habs ht4 hs4 hv4 ht hcost hcostly
  exact ⟨htraced, (hstrikes3.trans hstrikes4 hv.lt_size).trans hstrikes hv.lt_size, hmarked⟩

end Reading

end SpanIndex.Syntax
