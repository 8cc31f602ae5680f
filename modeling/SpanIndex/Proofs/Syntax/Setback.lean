import SpanIndex.Proofs.Syntax.Trace

/-!
# What a syntax error costs

When a token does not fit, all branches that come of it have a cost in the end, or are lost. A branch on
which a token has been supplied pays for the token; one that goes back pays for the stretch in between;
and one that stays lost pays for the token as soon as that is skipped. Branches that have a cost keep it.
-/

namespace SpanIndex.Syntax.Reading

variable {text : List Char} {live : Nat → Prop} {done : Option Tree → Prop} {r r' x y : Reading}
  {k u v w c first older : Nat} {b : Branch} {st : State} {label : Option Label} {p : Place}
  {unspent : Prop}

/-! ## What a branch looks like -/

/-- What tells whether a branch has to answer for an error. -/
structure View where
  cost : Nat
  state : Option State
  status : Status
  waypoints : Option (List Waypoint)

def view (r : Reading) (u : Nat) : View :=
  ⟨(r.top u).cost, r.state u, (r.branch u).status, (r.branch u).waypoints⟩

theorem view_congr (hcost : ∀ n, (y.frame n).cost = (x.frame n).cost)
    (hstate : ∀ n, (y.frame n).state = (x.frame n).state) (htop : (y.branch u).top = (x.branch v).top)
    (hstatus : (y.branch u).status = (x.branch v).status)
    (hways : (y.branch u).waypoints = (x.branch v).waypoints) : y.view u = x.view v := by
  unfold view Reading.state Reading.top
  rw [htop, hstatus, hways, hcost, hstate]

theorem Retains.view (h : Retains k r x) (hs : r.Sound text) (hu : u < k) : x.view u = r.view u := by
  unfold Reading.view
  rw [h.cost hs hu, h.toKeeps.state hs hu, h.status_eq u hu, h.waypoints_eq u hu]

theorem Merges.view_lt (h : Merges w x y) (hu : u < w) : y.view u = x.view u :=
  view_congr h.cost_eq h.state_eq (h.top_lt u hu) (h.status_lt u hu) (h.waypoints_lt u hu)

theorem Merges.view_ge (h : Merges w x y) (hu : w ≤ u) : y.view u = x.view (u + 1) :=
  view_congr h.cost_eq h.state_eq (h.top_ge u hu) (h.status_ge u hu) (h.waypoints_ge u hu)

theorem view_removeBranch_lt (hu : u < w) : (x.removeBranch w).view u = x.view u := by
  unfold view Reading.state Reading.top
  rw [branch_removeBranch_lt hu]
  rfl

theorem view_removeBranch_ge (hu : w ≤ u) : (x.removeBranch w).view u = x.view (u + 1) := by
  unfold view Reading.state Reading.top
  rw [branch_removeBranch_ge hu]
  rfl

theorem view_setBranch (hv : v < x.size) : (x.setBranch v b).view v
    = ⟨(x.frame b.top).cost, (x.frame b.top).state, b.status, b.waypoints⟩ := by
  unfold view Reading.state Reading.top
  rw [branch_setBranch hv]
  rfl

theorem view_setBranch_ne (hu : u ≠ v) : (x.setBranch v b).view u = x.view u := by
  unfold view Reading.state Reading.top
  rw [branch_setBranch_ne hu]
  rfl

theorem view_push_ne {t : Option Tree} {z : Option State} (hs : x.Sound text) (hu : u ≠ v) :
    (x.push v t z).view u = x.view u := by
  unfold view Reading.state Reading.top
  rw [branch_push_ne hu, frame_push_lt (hs.branch_top_lt u)]

/-! ## Closing whatever can be closed -/

/-- A branch that is worked on when productions are closed from the branch `first` on: it is that branch
itself, or one that has arisen since. -/
def InWork (first older u : Nat) : Prop := u = first ∨ older ≤ u

/-- The branch may be taken away without moving one that is not worked on. -/
def Removable (first older w : Nat) : Prop := older ≤ w ∨ (w = first ∧ older = first + 1)

/-- The branch `first` of `r` has been worked on. It and those that have arisen since look as they should,
and the others look as they did. -/
structure Worked (text : List Char) (live : Nat → Prop) (done : Option Tree → Prop)
    (Looks : View → Prop) (first older : Nat) (r x : Reading) : Prop where
  sound : x.Sound text
  traced : Traced live done x
  retains : Retains first r x
  le_size : older ≤ x.size ∨ older = first + 1
  spared : ∀ u, first < u → u < older → x.view u = r.view u
  looks : ∀ u, InWork first older u → u < x.size → Looks (x.view u)

variable {Looks : View → Prop}

/-- One of the branches that are worked on is taken away. -/
theorem Worked.drops (h : Worked text live done Looks first older r x) (hy : y.Sound text)
    (ht : Traced live done y) (hr : Retains w x y) (hw : w < x.size) (hsize : y.size = x.size - 1)
    (hlt : ∀ u, u < w → y.view u = x.view u) (hge : ∀ u, w ≤ u → y.view u = x.view (u + 1))
    (hrem : Removable first older w) (hfirst : first < older) :
    Worked text live done Looks first older r y := by
  have hle : first ≤ w := by
    rcases hrem with hrem | ⟨hrem, -⟩ <;> omega
  refine ⟨hy, ht, h.retains.trans hr hle, ?_, ?_, ?_⟩
  · rcases hrem with hrem | ⟨-, he⟩
    · exact Or.inl (by omega)
    · exact Or.inr he
  · intro u hu hold
    rw [hlt u (by rcases hrem with hrem | ⟨-, he⟩ <;> omega)]
    exact h.spared u hu hold
  · intro u hu hus
    by_cases huw : u < w
    · rw [hlt u huw]
      exact h.looks u hu (by omega)
    · -- a branch that is worked on comes from one that was
      have huw := Nat.le_of_not_lt huw
      rw [hge u huw]
      refine h.looks (u + 1) (Or.inr ?_) (by omega)
      rcases hrem with hrem | ⟨hrem, he⟩ <;> omega

theorem Worked.removeBranch (h : Worked text live done Looks first older r x) (hlt : w < x.size)
    (hw : Removable first older w) (hfirst : first < older) :
    Worked text live done Looks first older r (x.removeBranch w) :=
  h.drops (h.sound.removeBranch w) (h.traced.removeBranch w)
    ⟨(drops_removeBranch hlt).keeps, fun _ _ => rfl, fun u hu => by rw [branch_removeBranch_lt hu]⟩ hlt
    (size_removeBranch hlt) (fun _ => view_removeBranch_lt) (fun _ => view_removeBranch_ge) hw hfirst

theorem Worked.merges (h : Worked text live done Looks first older r x) (hy : y.Sound text)
    (ht : Traced live done y) (hd : Merges w x y) (hw : Removable first older w)
    (hfirst : first < older) : Worked text live done Looks first older r y :=
  h.drops hy ht hd.retains hd.lt_size hd.size_eq (fun _ => hd.view_lt) (fun _ => hd.view_ge) hw hfirst

/-- Further branches arise from one that is worked on. -/
theorem Worked.grows (h : Worked text live done Looks first older r x) (hy : y.Sound text)
    (ht : Traced live done y) (hr : Retains x.size x y)
    (hnew : ∀ u, x.size ≤ u → u < y.size → Looks (y.view u)) :
    Worked text live done Looks first older r y := by
  refine ⟨hy, ht, h.retains.trans hr h.retains.le_size, ?_, ?_, ?_⟩
  · exact h.le_size.imp (fun hle => Nat.le_trans hle hr.le_size) id
  · intro u hu hold
    have hlt : u < x.size := by
      rcases h.le_size with hle | he <;> omega
    rw [hr.view h.sound hlt]
    exact h.spared u hu hold
  · intro u hu hus
    by_cases hlt : u < x.size
    · rw [hr.view h.sound hlt]
      exact h.looks u hu hlt
    · exact hnew u (Nat.le_of_not_lt hlt) hus

/-- A branch that is worked on is changed. -/
theorem Worked.setBranch (h : Worked text live done Looks first older r x) (hv : InWork first older v)
    (hlt : v < x.size) (hfirst : first < older) (hb : x.BranchSound text b) (htb : BranchTraced live b)
    (hlooks : Looks ⟨(x.frame b.top).cost, (x.frame b.top).state, b.status, b.waypoints⟩) :
    Worked text live done Looks first older r (x.setBranch v b) := by
  have hle : first ≤ v := by
    rcases hv with rfl | hv <;> omega
  refine ⟨h.sound.setBranch hb, h.traced.setBranch htb, ?_, ?_, ?_, ?_⟩
  · exact h.retains.trans (retains_setBranch h.retains.le_size hle) (Nat.le_refl _)
  · rw [size_setBranch]; exact h.le_size
  · intro u hu hold
    rw [view_setBranch_ne (by rcases hv with rfl | hv <;> omega)]
    exact h.spared u hu hold
  · intro u hu hus
    rw [size_setBranch] at hus
    by_cases huv : u = v
    · subst huv
      rw [view_setBranch hlt]
      exact hlooks
    · rw [view_setBranch_ne huv]
      exact h.looks u hu hus

/-- A branch that is read on at the cost `c`. If it costs nothing then it is not lost, and if it had not
gone back then it still has not. -/
structure Working (c : Nat) (unspent : Prop) (i : View) : Prop where
  active : i.status = .active
  cost_eq : i.cost = c
  state_ne : c = 0 → i.state ≠ none
  waypoints_eq : unspent → i.waypoints = none

theorem Worked.replaceBranch (h : Worked text live done (Working c unspent) first older r x)
    (hv : InWork first older v) (hvw : v < w) (hw : w < x.size) (hold : older ≤ w)
    (hfirst : first < older) :
    Worked text live done (Working c unspent) first older r (x.replaceBranch w v) := by
  have hlw := h.looks w (Or.inr hold) hw
  have hlv := h.looks v hv (Nat.lt_trans hvw hw)
  unfold Reading.replaceBranch
  rw [if_neg (by simp only [beq_iff_eq]; omega)]
  extract_lets b b'
  have hways : unspent → b'.waypoints = none := by
    intro hun
    have hww : (x.branch w).waypoints = none := hlw.waypoints_eq hun
    have hwv : (x.branch v).waypoints = none := hlv.waypoints_eq hun
    show ((x.branch w).waypoints <|> (x.branch v).waypoints) = none
    rw [hww, hwv]
    rfl
  have hset : Worked text live done (Working c unspent) first older r (x.setBranch v b') :=
    h.setBranch hv (Nat.lt_trans hvw hw) hfirst (h.sound.branch w)
      ⟨(h.traced.branch w).live_top, (h.traced.branch w).paused⟩
      ⟨hlw.active, hlw.cost_eq, hlw.state_ne, hways⟩
  exact hset.removeBranch (by rw [size_setBranch]; exact hw) (Or.inl hold) hfirst

theorem Worked.closed (h : Worked text live done (Working c unspent) first older r x)
    (hv : InWork first older v) (hlt : v < x.size) (label : Option Label) :
    Worked text live done (Working c unspent) first older r
      ((x.stepsAt v label).1.foldl (fun found p => found.1.reduceNew v p) (x, none)).1 := by
  have hlv := h.looks v hv hlt
  have hcost : (x.top v).cost = c := hlv.cost_eq
  have hclosed := closed_stepsAt h.sound hlt label
  have hbears : Traced live done
        ((x.stepsAt v label).1.foldl (fun found p => found.1.reduceNew v p) (x, none)).1
      ∧ Bears x.size c x
        ((x.stepsAt v label).1.foldl (fun found p => found.1.reduceNew v p) (x, none)).1 := by
    have hstart : Bears x.size c x (x, (none : Option Nat)).1 := Bears.refl x c
    unfold stepsAt
    cases hst : x.state v with
    | none => exact ⟨h.traced, hstart⟩
    | some st =>
      rw [← hcost] at hstart ⊢
      exact (closed_start h.sound v).foldl_reduceNew_traced h.traced hstart h.sound hlt
        (not_halted_of_active hlv.active) hst fun k hk =>
          State.closes_of_mem_possibleSteps (h.sound.state_bounded hst) hk
  obtain ⟨ht, hb⟩ := hbears
  exact h.grows hclosed.sound ht hb.toRetains fun u hu hus =>
    ⟨hclosed.grows.active u hu hus, hb.cost_new u hu hus, fun _ => hb.state_new u hu hus,
      fun _ => hb.waypoints_new u hu hus⟩

/-- Closing productions keeps the cost. If a label is given then `first` was the last branch. -/
theorem closeAll_worked (label : Option Label) (hlabel : label ≠ none → older = first + 1)
    (hfirst : first < older) (fuel : Nat) : ∀ (v round : Nat) (canRead : Bool) (x : Reading),
      Worked text live done (Working c unspent) first older r x → InWork first older v →
      Worked text live done (Working c unspent) first older r
        (closeAll label first older fuel v round canRead x).1 := by
  induction fuel with
  | zero => intro v round canRead x h _; exact h
  | succ fuel ih =>
    intro v round canRead x h hv
    rw [closeAll]
    split
    · exact h
    · next hlt =>
      have hlt' : v < x.size := Nat.lt_of_not_le hlt
      split
      · next y hm =>
        have hold : older ≤ v := by
          obtain ⟨u, hu, -⟩ := List.exists_of_findSome?_eq_some hm
          rw [List.mem_filter, List.mem_range, decide_eq_true_iff] at hu
          omega
        obtain ⟨ht, hd⟩ := h.traced.mergeFirst? h.sound hm
        exact ih v _ _ y (h.merges (mergeFirst?_sound h.sound hm).1 ht hd (Or.inl hold) hfirst) hv
      · extract_lets steps found next
        have hfound : Worked text live done (Working c unspent) first older r found.1 :=
          h.closed hv hlt' label
        have hclosed : Closed text x v found := closed_stepsAt h.sound hlt' label
        have hsize : x.size ≤ found.1.size := hclosed.grows.keeps.le_size
        have hnext : InWork first older next := by
          show InWork first older (if _ then _ else _)
          split
          · next he =>
            have he := beq_iff_eq.mp he
            rcases h.le_size with hle | hle <;> exact Or.inr (by omega)
          · next hne =>
            rcases hv with he | he
            · exact absurd (beq_iff_eq.mpr he) hne
            · exact Or.inr (Nat.le_succ_of_le he)
        have hdrop : Worked text live done (Working c unspent) first older r
            (closeAll.dropUnless label v found.1) := by
          unfold closeAll.dropUnless
          split
          · exact hfound
          · exact hfound
          · refine hfound.removeBranch (by omega) ?_ hfirst
            rcases hv with he | he
            · exact Or.inr ⟨he, hlabel (Option.some_ne_none _)⟩
            · exact Or.inl he
        split
        · exact ih next _ _ _ hfound hnext
        · split
          · next w hw =>
            obtain ⟨hle, hw'⟩ := hclosed.new w hw
            split
            · refine ih v _ _ _ (hfound.replaceBranch hv (by omega) hw' ?_ hfirst) hv
              rcases h.le_size with hle' | hle' <;> rcases hv with he | he <;> omega
            · exact ih next _ _ _ hdrop hnext
          · exact ih next _ _ _ hdrop hnext

/-! ## Supplying a token -/

/-- All branches are as they were, and those that are new have a cost. -/
structure Adds (r r' : Reading) : Prop extends Retains r.size r r' where
  pos_new : ∀ u, r.size ≤ u → u < r'.size → 0 < (r'.top u).cost

theorem Adds.refl (r : Reading) : Adds r r where
  toRetains := Retains.refl (Nat.le_refl _)
  pos_new := fun _ h h' => absurd h' (Nat.not_lt.mpr h)

theorem Adds.trans (h : Adds r x) (hs : x.Sound text) (h' : Adds x y) : Adds r y where
  toRetains := h.toRetains.trans h'.toRetains h.le_size
  pos_new := fun u hu hlt => by
    by_cases hold : u < x.size
    · rw [h'.toRetains.cost hs hold]
      exact h.pos_new u hu hold
    · exact h'.pos_new u (Nat.le_of_not_lt hold) hlt

/-- The copy of a branch on which a token has been supplied costs more than that branch. -/
theorem supply_worked (h : Traced live done r) (hs : Stands r v p (some st)) (hsound : r.Sound text)
    {t : Terminal} {next : State} (hadv : st.advance (.terminal t) = some next) :
    let r1 := r.addBranch { r.branch v with waypoints := none }
    let r2 := r1.push r.size (some (Tree.absent t (r1.place v))) (some next)
    Worked text live done (Working ((r.top v).cost + (Tree.faultCost + Tree.missingCost)) True) r.size
      (r.size + 1) r r2 ∧ r2.size = r.size + 1 := by
  intro r1 r2
  have hfork : Forks (r.branch v).top r r1 :=
    forks_addBranch r { r.branch v with waypoints := none } hs.active rfl
  have hlt1 := hfork.lt_size
  have hsize2 : r2.size = r.size + 1 := by
    show (r1.push _ _ _).size = _
    rw [size_push, hfork.size_eq]
  have h1 : Traced live done r1 := h.addBranch ⟨(h.branch v).live_top, (h.branch v).paused⟩
  have h2 : Traced live done r2 := h1.push (hfork.top_lt (hsound.branch_top_lt v))
    (not_halted_of_active hfork.active)
    (traces_pushed r1 r.size next (Tree.honest_absent t _) (fun hl => by cases hl) fun hl => by cases hl)
  have hcost : (r2.top r.size).cost = (r.top v).cost + (Tree.faultCost + Tree.missingCost) := by
    show ((r1.push _ _ _).top _).cost = _
    rw [cost_push hlt1, hfork.cost (hsound.branch_top_lt v)]
    rfl
  have hlast : ∀ u, InWork r.size (r.size + 1) u → u < r2.size → u = r.size := by
    intro u hu hlt
    rcases hu with hu | hu <;> omega
  refine ⟨⟨(hs.supply hsound hadv).1, h2, ?_, Or.inr rfl, ?_, ?_⟩, hsize2⟩
  · exact hfork.retains.trans (retains_push (Nat.le_of_lt hlt1) (Nat.le_refl _)) (Nat.le_refl _)
  · intro u hu hold
    omega
  · intro u hu hlt
    rw [hlast u hu hlt]
    refine ⟨?_, hcost, fun hz => ?_, fun _ => ?_⟩
    · show ((r1.push _ _ _).branch _).status = _
      rw [status_push, hfork.active]
    · exact absurd hz (Nat.ne_of_gt (Nat.lt_of_lt_of_le (by decide) (Nat.le_add_left _ _)))
    · show ((r1.push _ _ _).branch _).waypoints = _
      rw [waypoints_push, hfork.no_waypoints]

theorem Worked.adds (h : Worked text live done (Working c unspent) r.size (r.size + 1) r x) (hc : 0 < c) :
    Adds r x where
  toRetains := h.retains
  pos_new := fun u hu hlt => by
    have hwork : InWork r.size (r.size + 1) u := by
      rcases Nat.eq_or_lt_of_le hu with he | he
      · exact Or.inl he.symm
      · exact Or.inr he
    rw [show (x.top u).cost = c from (h.looks u hwork hlt).cost_eq]
    exact hc

theorem supplyMissing_adds {lookahead : Tree} : ∀ (ts : List Terminal) {r : Reading},
    r.Sound text → Traced live done r → Stands r v p (some st) →
    Traced live done (supplyMissing v st lookahead ts r).1
      ∧ Adds r (supplyMissing v st lookahead ts r).1 := by
  intro ts
  induction ts with
  | nil => intro r _ h _; exact ⟨h, Adds.refl r⟩
  | cons t ts ih =>
    intro r hsound h hs
    rw [supplyMissing]
    extract_lets w b r1
    split
    · exact ih hsound h hs
    · next next hnext =>
      have hadv : st.advance (.terminal t) = some next := (Option.ite_none_right_eq_some.mp hnext).2
      split
      · extract_lets r2
        obtain ⟨hstart, hsize⟩ : Worked text live done
            (Working ((r.top v).cost + (Tree.faultCost + Tree.missingCost)) True) r.size (r.size + 1) r
              r2
            ∧ r2.size = r.size + 1 := supply_worked h hs hsound hadv
        have hworked := closeAll_worked (some lookahead.facts.label) (fun _ => rfl)
          (Nat.lt_succ_self _) r2.closingFuel r.size 0 false r2 hstart (Or.inl rfl)
        have hadds := hworked.adds (Nat.lt_of_lt_of_le (by decide) (Nat.le_add_left _ _))
        rw [← hsize] at hworked hadds
        split
        · next y hy =>
          rw [hy] at hworked hadds
          exact ⟨hworked.traced, hadds⟩
        · next y hy =>
          rw [hy] at hworked hadds
          obtain ⟨h3, hadds3⟩ := ih hworked.sound hworked.traced
            (hadds.toKeeps.stands hsound hs hs.lt_size)
          exact ⟨h3, hadds.trans hworked.sound hadds3⟩
      · exact ih hsound h hs

theorem trySupply_adds (lookahead : Tree) {tried : Reading × Bool} {z : Option State}
    (hsound : tried.1.Sound text) (h : Traced live done tried.1) (hw : Stands tried.1 w p z) :
    Traced live done (trySupply lookahead tried w).1 ∧ Adds tried.1 (trySupply lookahead tried w).1 := by
  unfold trySupply
  split
  · next st _ hst =>
    rw [hw.state_eq] at hst
    exact supplyMissing_adds _ hsound h (hst ▸ hw)
  · exact ⟨h, Adds.refl _⟩

/-! ## Losing the state -/

/-- The branches `ws` of `r` have lost their states where they stood. The others look as they did, and
those that are new have a cost. -/
structure Loses (ws : List Nat) (r x : Reading) : Prop where
  frames : Retains 0 r x
  le_size : r.size ≤ x.size
  view_eq : ∀ u, u < r.size → u ∉ ws → x.view u = r.view u
  lost : ∀ u, u < r.size → u ∈ ws → x.view u = { r.view u with state := none }
  pos_new : ∀ u, r.size ≤ u → u < x.size → 0 < (x.view u).cost

theorem Loses.refl (r : Reading) : Loses [] r r where
  frames := Retains.refl (Nat.zero_le _)
  le_size := Nat.le_refl _
  view_eq := fun _ _ _ => rfl
  lost := fun _ _ hu => by cases hu
  pos_new := fun _ h h' => absurd h' (Nat.not_lt.mpr h)

theorem Loses.cons {ws : List Nat} (h : Loses [w] r x) (h' : Loses ws x y) : Loses (w :: ws) r y where
  frames := h.frames.trans h'.frames (Nat.le_refl _)
  le_size := Nat.le_trans h.le_size h'.le_size
  view_eq := fun u hu hmem => by
    rw [List.mem_cons, not_or] at hmem
    rw [h'.view_eq u (Nat.lt_of_lt_of_le hu h.le_size) hmem.2]
    exact h.view_eq u hu (by rw [List.mem_singleton]; exact hmem.1)
  lost := fun u hu hmem => by
    have hux := Nat.lt_of_lt_of_le hu h.le_size
    by_cases huw : u = w
    · have hx := h.lost u hu (List.mem_singleton.mpr huw)
      by_cases huws : u ∈ ws
      · rw [h'.lost u hux huws, hx]
      · rw [h'.view_eq u hux huws, hx]
    · have hx := h.view_eq u hu (by rw [List.mem_singleton]; exact huw)
      rw [h'.lost u hux ((List.mem_cons.mp hmem).resolve_left huw), hx]
  pos_new := fun u hu hlt => by
    by_cases hux : u < x.size
    · have hpos := h.pos_new u hu hux
      by_cases huws : u ∈ ws
      · rw [h'.lost u hux huws]; exact hpos
      · rw [h'.view_eq u hux huws]; exact hpos
    · exact h'.pos_new u (Nat.le_of_not_lt hux) hlt

/-- Without a tree on the link the reader is lost, and it was not before. -/
theorem traces_lost (r : Reading) (v : Nat) (h : (r.top v).cost = 0 → r.state v ≠ none) :
    Traces (r.pushed v none none) (r.top v) none where
  cost_eq := rfl
  honest := fun _ hx => by cases hx
  apart := fun _ hx => by cases hx
  present := fun hne => absurd rfl hne
  lost := fun hz _ => ⟨rfl, h hz⟩
  stays := fun _ _ hx => by cases hx

theorem loseState_loses (lookahead : Tree) {tried : Reading × Bool} {z : Option State}
    (hsound : tried.1.Sound text) (h : Traced live done tried.1) (hw : Stands tried.1 w p z)
    (hne : (tried.1.top w).cost = 0 → tried.1.state w ≠ none) :
    (loseState lookahead tried w).1.Sound text ∧ Traced live done (loseState lookahead tried w).1
      ∧ Loses [w] tried.1 (loseState lookahead tried w).1 := by
  obtain ⟨hsx, -⟩ := trySupply_sound lookahead hsound hw
  obtain ⟨hx, hadds⟩ := trySupply_adds lookahead hsound h hw
  unfold loseState
  simp only
  generalize (trySupply lookahead tried w).1 = x at hsx hx hadds
  have hview := hadds.toRetains.view hsound hw.lt_size
  have hwx : w < x.size := Nat.lt_of_lt_of_le hw.lt_size hadds.le_size
  have hne' : (x.top w).cost = 0 → x.state w ≠ none := by
    show (x.view w).cost = 0 → (x.view w).state ≠ none
    rw [hview]
    exact hne
  have hactive : (x.branch w).status.isHalted = false := by
    rw [hadds.status_eq w hw.lt_size]
    exact not_halted_of_active hw.active
  have hself : (x.push w none none).view w = { x.view w with state := none } := by
    unfold Reading.view Reading.state Reading.top
    rw [top_push hwx, frame_push, status_push, waypoints_push]
    rfl
  refine ⟨hsx.push_lost w, hx.push (hsx.branch_top_lt w) hactive (traces_lost x w hne'), ?_, ?_, ?_, ?_, ?_⟩
  · exact (hadds.toRetains.mono (Nat.zero_le _)).trans
      (retains_push (Nat.zero_le _) (Nat.zero_le _)) (Nat.le_refl _)
  · rw [size_push]; exact hadds.le_size
  · intro u hu hmem
    rw [view_push_ne hsx (by rw [List.mem_singleton] at hmem; exact hmem)]
    exact hadds.toRetains.view hsound hu
  · intro u hu hmem
    rw [List.mem_singleton.mp hmem, hself, hview]
  · intro u hu hlt
    rw [size_push] at hlt
    rw [view_push_ne hsx (by have := hw.lt_size; omega)]
    exact hadds.pos_new u hu hlt

theorem foldl_loseState_loses (lookahead : Tree) {ws : List Nat} (hnodup : ws.Nodup) :
    ∀ {tried : Reading × Bool}, tried.1.Sound text → Traced live done tried.1 →
    (∀ w ∈ ws, (∃ z, Stands tried.1 w p z) ∧ ((tried.1.top w).cost = 0 → tried.1.state w ≠ none)) →
    Traced live done (ws.foldl (loseState lookahead) tried).1
      ∧ Loses ws tried.1 (ws.foldl (loseState lookahead) tried).1 := by
  induction ws with
  | nil => intro tried _ h _; exact ⟨h, Loses.refl _⟩
  | cons w ws ih =>
    intro tried hsound h hws
    obtain ⟨hnot, hnodup'⟩ := List.nodup_cons.mp hnodup
    obtain ⟨⟨z, hw⟩, hne⟩ := hws w List.mem_cons_self
    obtain ⟨hsx, hx, hloses⟩ := loseState_loses lookahead hsound h hw hne
    obtain ⟨hs1, hk⟩ := trySupply_sound lookahead hsound hw
    rw [List.foldl_cons]
    obtain ⟨hy, hloses'⟩ := ih hnodup' hsx hx fun u hu => by
      obtain ⟨⟨z', hu'⟩, hne'⟩ := hws u (List.mem_cons_of_mem _ hu)
      refine ⟨(hk.stands hsound hu' hu'.lt_size).push_lost hs1 w, ?_⟩
      have hview := hloses.view_eq u hu'.lt_size fun hmem =>
        hnot (List.mem_singleton.mp hmem ▸ hu)
      show ((loseState lookahead tried w).1.view u).cost = 0
        → ((loseState lookahead tried w).1.view u).state ≠ none
      rw [hview]
      exact hne'
    exact ⟨hy, hloses.cons hloses'⟩

end SpanIndex.Syntax.Reading
