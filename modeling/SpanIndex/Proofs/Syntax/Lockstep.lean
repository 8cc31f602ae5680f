import SpanIndex.Proofs.Syntax.Fitting

/-!
# Reading on as long as everything fits

A text and the text with `k` line breaks in front of it are read in step. Each function that reads takes a
clean reading to a clean reading, and the corresponding reading to the corresponding one: a token
(`readToken_raise`), a round (`readRound_raise`), the comparison of branches (`prune_raise`). After a round
either no branch waits in front of a token that does not fit, and the readings go on alike, or all of them
do (`condense_raise`). What is done then depends on where the text stands, and the readings part.
-/

namespace SpanIndex.Syntax.Reading

open Text

variable {k n v w : Nat} {text : List Char} {r x : Reading} {p : Place} {st : State} {token : Tree}
  {below : Option State}

/-! ## Finishing -/

theorem betterTree_raise (k : Nat) (best : Option Tree) (t : Tree) :
    betterTree (best.map (Tree.raise k)) (t.raise k) = (betterTree best t).map (Tree.raise k) := by
  cases best with
  | none => rfl
  | some s =>
    unfold betterTree
    simp only [Option.map_some, Tree.prefersSecond_raise]
    split <;> rfl

theorem foldl_betterTree_raise (k : Nat) (roots : List Tree) (best : Option Tree) :
    (roots.map (Tree.raise k)).foldl betterTree (best.map (Tree.raise k))
      = (roots.foldl betterTree best).map (Tree.raise k) := by
  induction roots generalizing best with
  | nil => rfl
  | cons t roots ih => rw [List.map_cons, List.foldl_cons, List.foldl_cons, betterTree_raise, ih]

theorem filterMap_spliceLast?_raise {ways : List (List Tree)}
    (h : ∀ trees ∈ ways, ∀ t ∈ trees, t.Plain k) :
    (ways.map (List.map (Tree.raise k))).filterMap Tree.spliceLast?
      = (ways.filterMap Tree.spliceLast?).map (Tree.raise k) := by
  induction ways with
  | nil => rfl
  | cons trees ways ih =>
    have hsplice : Tree.spliceLast? (trees.map (Tree.raise k))
        = (Tree.spliceLast? trees).map (Tree.raise k) :=
      Tree.spliceLast?_raise fun t ht _ => (h trees List.mem_cons_self t ht).fits
    rw [List.map_cons, List.filterMap_cons, List.filterMap_cons, hsplice,
      ih fun ts hts => h ts (List.mem_cons_of_mem _ hts)]
    cases Tree.spliceLast? trees <;> rfl

/-- All trees on the ways down to the bottom fit. -/
theorem allTrees_plain (hs : r.Sound text) (h : r.Smooth k) {trees : List Tree}
    (htrees : trees ∈ r.allTrees v) : ∀ t ∈ trees, t.Plain k ∧ t.Sound text := by
  have hend := allTrees_induction
    (P := fun q => q.node < r.frames.size ∧ ∀ t ∈ q.trees, t.Plain k ∧ t.Sound text)
    ⟨hs.branch_top_lt v, fun t ht => by cases ht⟩ ?_ htrees
  · obtain ⟨q, ⟨-, hq⟩, rfl, -⟩ := hend
    exact hq
  · rintro q ⟨hlt, hq⟩ l hl
    obtain ⟨hbelow, -, y, hy, hplain, -⟩ := h.linked q.node hlt trivial l hl
    have hjoin := hs.joins q.node hlt l hl
    unfold Path.follow
    rw [hy] at hjoin ⊢
    refine ⟨hbelow, fun t ht => ?_⟩
    rcases List.mem_cons.mp ht with rfl | ht
    · exact ⟨hplain, hjoin.sound⟩
    · exact hq t ht

/-- A file that is made of trees that fit costs nothing, and its parts lie behind the line breaks. -/
theorem spliceLast?_costless {trees : List Tree} {root : Tree}
    (h : ∀ t ∈ trees, t.Plain k ∧ t.Sound text) (hroot : Tree.spliceLast? trees = some root) :
    root.Costless ∧ ∀ c ∈ root.children, k ≤ c.facts.start.index := by
  unfold Tree.spliceLast? at hroot
  extract_lets split at hroot
  obtain ⟨t, ht, rfl⟩ := Option.map_eq_some_iff.mp hroot
  have happ : split.1 ++ split.2 = trees := splitTrailing_append trees
  have hleft : ∀ c ∈ split.1, c ∈ trees := fun c hc => happ ▸ List.mem_append_left _ hc
  have hright : ∀ c ∈ split.2, c ∈ trees := fun c hc => happ ▸ List.mem_append_right _ hc
  obtain ⟨hplain, hsound⟩ := h t (hleft t (List.mem_of_getLast? ht))
  have hall : ∀ c ∈ split.1.dropLast ++ t.children ++ split.2,
      c.Costless ∧ k ≤ c.facts.start.index := by
    intro c hc
    rw [List.append_assoc, List.mem_append, List.mem_append] at hc
    rcases hc with hc | hc | hc
    · have hc' := (h c (hleft c (List.dropLast_subset _ hc))).1
      exact ⟨hc'.costless, hc'.le_start⟩
    · exact ⟨hplain.costless.child hc, Nat.le_trans hplain.le_start (hsound.start_le_child hc)⟩
    · have hc' := (h c (hright c hc)).1
      exact ⟨hc'.costless, hc'.le_start⟩
  exact ⟨Tree.costless_build hplain.fits _ _ fun c hc => (hall c hc).1, fun c hc => (hall c hc).2⟩

theorem accept_raise (hs : r.Sound (lowered k text)) (h : r.Clean k)
    (hstands : Stands r v p below) (ht : TokenAt (lowered k text) p token)
    (hend : token.facts.label = .endOfInput) (hplain : token.Plain k) :
    (r.accept v token).Clean k ∧ (r.raise k).accept v (token.raise k) = (r.accept v token).raise k := by
  have hextra : token.facts.extra = true := by
    rw [ht.extra_eq, hend]
    rfl
  have hs1 := hstands.push_end hs ht hextra
  have h1 := h.push (v := v) (hs.branch_top_lt v) hplain (Option.some_ne_none State.start)
    fun _ hne => absurd hend hne
  have hways : ∀ trees ∈ (r.push v (some token) (some State.start)).allTrees v, ∀ t ∈ trees,
      t.Plain k ∧ t.Sound (lowered k text) := fun trees htrees =>
    allTrees_plain hs1 h1.toSmooth htrees
  have hpush : (r.raise k).push v (some (token.raise k)) (some State.start)
      = (r.push v (some token) (some State.start)).raise k := push_raise k r v (some token) _
  have hsplice := filterMap_spliceLast?_raise fun trees htrees t ht => (hways trees htrees t ht).1
  have hfin : ∀ t, ((r.push v (some token) (some State.start)).allTrees v |>.filterMap
      Tree.spliceLast?).foldl betterTree (r.push v (some token) (some State.start)).finished = some t →
      t.Costless ∧ ∀ c ∈ t.children, k ≤ c.facts.start.index := by
    intro t ht
    rcases foldl_betterTree ht with hold | hnew
    · exact h1.finished_costless t hold
    · obtain ⟨trees, htrees, hroot⟩ := List.mem_filterMap.mp hnew
      exact spliceLast?_costless (hways trees htrees) hroot
  unfold accept
  simp only [hpush, allTrees_raise, hsplice]
  generalize r.push v (some token) (some State.start) = y at h1 hfin
  constructor
  · refine Clean.halt ?_ v
    exact ⟨h1.toSmooth.of_frames rfl, h1.waypoints_eq, h1.paused_costless, hfin, h1.furthest_clear⟩
  · rw [← setStatus_raise]
    congr 1
    unfold raise
    simp only [foldl_betterTree_raise, List.length_map]

/-! ## One token -/

/-- In front of a text every token is read, and nothing is closed; and line breaks are white space. -/
theorem start_opens : (Mode.ofExpectation State.start.expected).SkipsLines
    ∧ ∀ t ∈ Terminal.all, ∀ a ∈ State.start.actions (some t), a = .shift := by
  decide +kernel

/-- The token costs nothing and stands behind the line breaks. It may be one that does not fit. -/
structure Ahead (k : Nat) (t : Tree) : Prop where
  costless : t.Costless
  le_start : k ≤ t.facts.start.index
  lt_stop : k < t.facts.stop.index

theorem Ahead.plain (h : Ahead k token) (hl : token.facts.label.isFault = false) : token.Plain k :=
  ⟨h.costless, hl, h.le_start, h.lt_stop⟩

theorem Ahead.asExtra (h : Ahead k token) : Ahead k token.asExtra := by
  cases token
  exact ⟨h.costless.asExtra, h.le_start, h.lt_stop⟩

theorem Ahead.asIdentifier (h : Ahead k token) : Ahead k (asIdentifier token) := by
  obtain ⟨hcost, hstart, hstop⟩ := h
  cases hcost with
  | node hf hcs => exact ⟨.node hf hcs, hstart, hstop⟩

@[simp] theorem asIdentifier_raise (k : Nat) (token : Tree) :
    asIdentifier (token.raise k) = (asIdentifier token).raise k := by
  cases token; rfl

@[simp] theorem stateAfter_raise (k : Nat) (st : State) (token : Tree) :
    stateAfter st (token.raise k) = stateAfter st token := by
  unfold stateAfter
  rw [Tree.facts_raise]
  rfl

@[simp] theorem canBeIdentifier_raise (k : Nat) (st : State) (token : Tree) :
    canBeIdentifier st (token.raise k) = canBeIdentifier st token := by
  unfold canBeIdentifier
  rw [Tree.facts_raise]
  rfl

theorem shift_raise (hs : r.Sound (lowered k text)) (h : r.Clean k)
    (ht : TokenAt (lowered k text) p token) (hahead : Ahead k token) (st : State) :
    (r.shift v st token).Clean k
      ∧ (r.raise k).shift v st (token.raise k) = (r.shift v st token).raise k := by
  unfold shift
  rw [stateAfter_raise]
  split
  · next y hnext =>
    obtain ⟨s, hl, -⟩ := symbol_of_stateAfter hnext
    have hextra : token.facts.extra = false := by
      rw [ht.extra_eq, hl]
      rfl
    refine ⟨h.push (hs.branch_top_lt v) (hahead.plain (by rw [hl]; rfl)) (Option.some_ne_none _)
      fun hx => ?_, push_raise k r v (some token) _⟩
    rw [hextra] at hx
    cases hx
  · exact ⟨h.halt v, setStatus_raise k r v .halted⟩

/-- The productions of some actions are closed, in both readings. -/
theorem foldl_closeBy_raise (hr : r.Sound (lowered k text)) (hv : v < r.size)
    (hst : r.state v = some st) {actions : List State.Action}
    (hcloses : ∀ q, .reduce q ∈ actions → st.Closes q)
    (htop : ∀ q, .reduce q ∈ actions → (r.branch v).top ≠ 0) {found : Reading × Option Nat}
    (hc : Closed (lowered k text) r v found) (hclean : found.1.Clean k) :
    (actions.foldl (closeBy v) found).1.Clean k
      ∧ actions.foldl (closeBy v) (found.1.raise k, found.2)
        = ((actions.foldl (closeBy v) found).1.raise k, (actions.foldl (closeBy v) found).2) := by
  induction actions generalizing found with
  | nil => exact ⟨hclean, rfl⟩
  | cons a actions ih =>
    have hrest : ∀ q, .reduce q ∈ actions → st.Closes q := fun q hq =>
      hcloses q (List.mem_cons_of_mem _ hq)
    have htop' : ∀ q, .reduce q ∈ actions → (r.branch v).top ≠ 0 := fun q hq =>
      htop q (List.mem_cons_of_mem _ hq)
    have hc' := hc.closeBy hr hv hst (a := a) fun q hq => hcloses q (hq ▸ List.mem_cons_self)
    rw [List.foldl_cons, List.foldl_cons]
    cases a with
    | reduce q =>
      have hstate : found.1.state v = some st := (hc.grows.keeps.state hr hv).trans hst
      have htop'' : (found.1.branch v).top ≠ 0 := by
        rw [hc.grows.keeps.top_eq v hv]
        exact htop q List.mem_cons_self
      obtain ⟨hnew, heq⟩ := reduceNew_raise hc.sound hclean hstate
        (hcloses q List.mem_cons_self) htop''
      have hstep : closeBy v (found.1.raise k, found.2) (.reduce q)
          = ((closeBy v found (.reduce q)).1.raise k, (closeBy v found (.reduce q)).2) := by
        rw [closeBy, closeBy, heq]
      have hnew' : (closeBy v found (.reduce q)).1.Clean k := by
        rw [closeBy]
        generalize found.1.reduceNew v q = new at hnew
        exact hnew
      rw [hstep]
      exact ih hrest htop' hc' hnew'
    | shift => exact ih hrest htop' hc' hclean
    | shiftRepetition => exact ih hrest htop' hc' hclean
    | accept => exact ih hrest htop' hc' hclean

/-- Productions are closed only behind the first token. -/
theorem top_ne_zero_of_reduce (h : r.Smooth k) (hs : Stands r v p (some st))
    (ht : token.facts.label ≠ .endOfInput ∨ p.index ≠ 0) {q : Nat}
    (hq : .reduce q ∈ actionsAt st token.facts.label) : (r.branch v).top ≠ 0 := by
  intro hz
  have hp : p.index = 0 := by
    rw [← hs.place_eq]
    show (r.frame (r.branch v).top).place.index = 0
    rw [hz]
    exact h.bottom_index
  have hst : st = State.start := by
    have hstate : (r.frame (r.branch v).top).state = some st := hs.state_eq
    rw [hz, h.bottom_state] at hstate
    exact (Option.some.inj hstate).symm
  subst hst
  unfold actionsAt at hq
  split at hq
  · next t _ =>
    cases start_opens.2 t (List.mem_of_getElem? t.getElem?_all) _ hq
  · next hl =>
    exact ht.elim (fun hne => hne hl) fun hne => hne hp
  · cases hq

theorem readToken_raise (fuel : Nat) : ∀ {token : Tree} {r : Reading} {below : Option State},
    r.Sound (lowered k text) → r.Clean k → Stands r v p below → TokenAt (lowered k text) p token →
    Ahead k token → (token.facts.label ≠ .endOfInput ∨ p.index ≠ 0) →
    (readToken v fuel token r).Clean k
      ∧ readToken v fuel (token.raise k) (r.raise k) = (readToken v fuel token r).raise k := by
  induction fuel with
  | zero =>
    intro token r below _ h _ _ _ _
    exact ⟨h.halt v, setStatus_raise k r v .halted⟩
  | succ fuel ih =>
    intro token r below hs h hstands ht hahead hend
    rw [readToken, readToken, state_raise]
    split
    · next hnone => exact absurd hnone (h.state_ne _ (hs.branch_top_lt v))
    · next st hst =>
      have hst' : below = some st := hstands.state_eq.symm.trans hst
      subst hst'
      have hlabel : (token.raise k).facts.label = token.facts.label := by
        rw [Tree.facts_raise]
        rfl
      have hbounded := hs.state_bounded hst
      have hclosed : Closed (lowered k text) r v
          ((actionsAt st token.facts.label).foldl (closeBy v) (r, none)) :=
        (closed_start hs v).foldl_closeBy hs hstands.lt_size hst fun q hq =>
          closes_of_mem_actionsAt hbounded hq
      obtain ⟨hclean, heq⟩ := foldl_closeBy_raise hs hstands.lt_size hst
        (fun q hq => closes_of_mem_actionsAt hbounded hq)
        (fun q hq => top_ne_zero_of_reduce h.toSmooth hstands hend hq) (closed_start hs v) h
      have hstands' : Stands ((actionsAt st token.facts.label).foldl (closeBy v) (r, none)).1 v p
          (some st) := hclosed.grows.keeps.stands hs hstands hstands.lt_size
      rw [hlabel]
      simp only
      rw [show ((r.raise k, none) : Reading × Option Nat) = ((r, none).1.raise k, (r, none).2) from rfl,
        heq]
      generalize (actionsAt st token.facts.label).foldl (closeBy v) (r, none) = found at *
      obtain ⟨x, new⟩ := found
      simp only at hclosed hclean hstands' ⊢
      split
      · -- a comment is set apart and the state stays
        next hc =>
        have hplain : token.asExtra.Plain k := hahead.asExtra.plain (by
          rw [Tree.label_asExtra, beq_iff_eq.mp hc]
          rfl)
        refine ⟨h.push (hs.branch_top_lt v) hplain (Option.some_ne_none _) fun _ _ => ?_, ?_⟩
        · rw [hst, beq_state_iff]
        · rw [Tree.asExtra_raise]
          exact push_raise k r v (some token.asExtra) _
      · split
        · next hacc =>
          obtain ⟨hl, -⟩ := accept_mem_actionsAt hbounded (List.contains_iff_mem.mp hacc)
          exact accept_raise hs h hstands ht hl (hahead.plain (by rw [hl]; rfl))
        · split
          · exact shift_raise hclosed.sound hclean ht hahead st
          · split
            · -- the branch of the last production that was closed reads the token in its place
              next w =>
              obtain ⟨hx, y, hy⟩ := hclosed.stands_replaceBranch hstands.lt_size rfl
              obtain ⟨hcl, heq'⟩ := replaceBranch_raise hclean w v
              rw [heq']
              exact ih hx hcl (hstands.place_eq ▸ hy) ht hahead hend
            · split
              · exact ⟨hclean.halt v, setStatus_raise k _ v .halted⟩
              · rw [canBeIdentifier_raise]
                split
                · next hcan =>
                  obtain ⟨hk, hne⟩ := keyword_of_canBeIdentifier hcan
                  rw [asIdentifier_raise]
                  exact ih hclosed.sound hclean hstands' (asIdentifier_tokenAt ht hk hne)
                    hahead.asIdentifier (Or.inl (by cases token; rintro ⟨⟩))
                · refine ⟨hclean.setStatus fun t ht => ?_, setStatus_raise k _ v (.paused token)⟩
                  cases ht
                  exact hahead.costless

/-- A text with something in it besides white space, and without a byte order mark. -/
structure Legible (text : List Char) : Prop where
  unmarked : text.head? ≠ some '\ufeff'
  nonblank : text.dropWhile isSpace ≠ []

/-- The token that a branch reads next, in both readings. -/
theorem tokenAt_place (htext : Legible text) (hs : r.Sound (lowered k text)) (h : r.Smooth k) (v : Nat) :
    Ahead k (tokenAt (r.state v) (r.place v))
      ∧ ((tokenAt (r.state v) (r.place v)).facts.label ≠ .endOfInput ∨ (r.place v).index ≠ 0)
      ∧ tokenAt (r.state v) ((r.place v).raise k) = (tokenAt (r.state v) (r.place v)).raise k := by
  have hlt := hs.branch_top_lt v
  have hin := hs.place_in' v
  have hcost := costless_tokenAt (r.state v) (r.place v)
  rcases h.clear _ hlt with hz | hk
  · -- nothing has been read yet
    have hplace : r.place v = Place.start (lowered k text) := by
      refine Place.eq_of_index hin (Place.start_in _) ?_
      show (r.frame (r.branch v).top).place.index = 0
      rw [hz]
      exact h.bottom_index
    have hstate : r.state v = some State.start := by
      show (r.frame (r.branch v).top).state = _
      rw [hz]
      exact h.bottom_state
    have hmode : (Mode.ofExpectation (soughtIn (r.state v))).SkipsLines := by
      rw [hstate]
      exact start_opens.1
    have hopens := tokenAt_start hmode htext.unmarked htext.nonblank k
    rw [← hplace] at hopens
    refine ⟨⟨hcost, hopens.le_start, hopens.lt_stop⟩, Or.inl hopens.not_end, ?_⟩
    rw [hopens.raise_eq, hplace, Place.raise_start]
  · have ht := tokenAt_tokenAt hin (r.state v)
    have hk' : k < (r.place v).index := hk
    have hplaced := ht.sound.placed
    have hbefore := hplaced.before_le
    rw [ht.before_eq] at hbefore
    have hstop := hplaced.start_le
    refine ⟨⟨hcost, by omega, by omega⟩, Or.inr (by omega), tokenAt_raise hin hk' _⟩

theorem closingFuel_raise (k : Nat) (r : Reading) : (r.raise k).closingFuel = r.closingFuel := by
  unfold closingFuel raise
  rw [Array.size_map]

theorem readNext_raise (htext : Legible text) (hs : r.Sound (lowered k text)) (h : r.Clean k)
    (hv : r.isActive v = true) :
    (r.readNext v).Clean k ∧ (r.raise k).readNext v = (r.readNext v).raise k := by
  obtain ⟨hahead, hend, heq⟩ := tokenAt_place htext hs h.toSmooth v
  have hactive : (r.branch v).status = .active := by
    unfold isActive Status.isActive at hv
    split at hv
    · assumption
    · cases hv
  unfold readNext
  rw [state_raise, place_raise, closingFuel_raise, heq]
  exact readToken_raise _ hs h ⟨lt_size_of_isActive hv, hactive, rfl, rfl⟩
    (tokenAt_tokenAt (hs.place_in' v) _) hahead hend

/-! ## One round -/

theorem readRound_raise (htext : Legible text) (fuel : Nat) : ∀ {v : Nat} {r : Reading},
    r.Sound (lowered k text) → r.Clean k →
    (readRound fuel v r).Clean k ∧ readRound fuel v (r.raise k) = (readRound fuel v r).raise k := by
  induction fuel with
  | zero => intro v r _ h; exact ⟨h, rfl⟩
  | succ fuel ih =>
    intro v r hs h
    have hactive : (r.raise k).isActive v = r.isActive v := by
      unfold isActive
      rw [branch_raise, isActive_raise]
    rw [readRound, readRound, size_raise, hactive]
    split
    · exact ⟨h, rfl⟩
    · split
      · next hv =>
        have hx := readNext_sound hs hv
        obtain ⟨hclean, heq⟩ := readNext_raise htext hs h hv
        rw [heq]
        generalize r.readNext v = x at hx hclean
        have hclear : (x.place v).offset = 0 ∨ k < (x.place v).offset :=
          (hclean.clear_place (hx.branch_top_lt v)).offset (hx.place_in' v)
        have hoffset : ((x.raise k).place v).offset = (x.place v).offset - k := by
          rw [place_raise]
          rfl
        have hfurthest : (x.raise k).furthest = x.furthest - k := rfl
        have hfur := hclean.furthest_clear
        have hlt : decide (x.furthest - k < (x.place v).offset - k)
            = decide (x.furthest < (x.place v).offset) := by
          rw [decide_eq_decide]
          omega
        have hbeq : ((x.place v).offset - k == x.furthest - k)
            = ((x.place v).offset == x.furthest) := by
          rw [Bool.eq_iff_iff, beq_iff_eq, beq_iff_eq]
          omega
        simp only [hoffset, hfurthest, size_raise, hlt, hbeq]
        split
        · have hset : ({ x with furthest := (x.place v).offset } : Reading).Clean k :=
            ⟨hclean.toSmooth.of_frames rfl, hclean.waypoints_eq, hclean.paused_costless,
              hclean.finished_costless, hclear⟩
          exact ih (hx.of_sublist rfl rfl fun _ hb => hb) hset
        · exact ih hx hclean
      · exact ih hs h

/-! ## Comparing branches -/

theorem cost_raise (k : Nat) (r : Reading) (v : Nat) : (r.raise k).cost v = r.cost v := by
  have hlinks : (((r.top v).links.map (Link.raise k)).head?.map (·.tree.isNone)).getD false
      = ((r.top v).links.head?.map (·.tree.isNone)).getD false := by
    rw [List.head?_map, Option.map_map]
    cases (r.top v).links.head? with
    | none => rfl
    | some l => exact Option.isNone_map
  unfold cost
  rw [top_raise, branch_raise, isPaused_raise]
  simp only [Frame.raise, hlinks]

theorem standing_raise (k : Nat) (r : Reading) (v : Nat) : (r.raise k).standing v = r.standing v := by
  unfold standing progress
  rw [cost_raise, branch_raise, isPaused_raise, top_raise, state_raise]
  rfl

theorem compareWithEarlier_raise {s : Standing} (fuel : Nat) : ∀ {w v : Nat} {r : Reading},
    r.Sound (lowered k text) → r.Clean k →
    (compareWithEarlier s fuel w v r).1.Clean k
      ∧ compareWithEarlier s fuel w v (r.raise k)
        = ((compareWithEarlier s fuel w v r).1.raise k, (compareWithEarlier s fuel w v r).2) := by
  induction fuel with
  | zero => intro w v r _ h; exact ⟨h, rfl⟩
  | succ fuel ih =>
    intro w v r hs h
    obtain ⟨hmerge, hsome⟩ := merge?_raise hs h w v
    rw [compareWithEarlier, compareWithEarlier, standing_raise, hmerge]
    split
    · exact ⟨h, rfl⟩
    · split
      · exact ⟨h.removeBranch v, by rw [removeBranch_raise]⟩
      · cases hm : r.merge? w v with
        | some y => exact ⟨hsome y hm, rfl⟩
        | none => exact ih hs h
      · cases hm : r.merge? w v with
        | some y => exact ⟨hsome y hm, rfl⟩
        | none => exact ih hs h
      · cases hm : r.merge? w v with
        | some y => exact ⟨hsome y hm, rfl⟩
        | none =>
          simp only [Option.map_none, branch_raise, setBranch_raise]
          exact ih ((hs.setBranch (hs.branch v)).setBranch (hs.branch w))
            ((h.setBranch (h.branch v)).setBranch (h.branch w))
      · rw [removeBranch_raise]
        exact ih (hs.removeBranch w) (h.removeBranch w)

theorem prune_raise (fuel : Nat) : ∀ (v : Nat) (best : Option Nat) {r : Reading},
    r.Sound (lowered k text) → r.Clean k →
    (prune fuel v best r).1.Clean k
      ∧ prune fuel v best (r.raise k) = ((prune fuel v best r).1.raise k, (prune fuel v best r).2) := by
  induction fuel with
  | zero => intro v best r _ h; exact ⟨h, rfl⟩
  | succ fuel ih =>
    intro v best r hs h
    rw [prune, prune, size_raise, branch_raise, isHalted_raise]
    split
    · exact ⟨h, rfl⟩
    · split
      · rw [removeBranch_raise]
        exact ih _ _ (hs.removeBranch v) (h.removeBranch v)
      · obtain ⟨hclean, heq⟩ := compareWithEarlier_raise (s := r.standing v) (r.size + 1) (w := 0)
          (v := v) hs h
        simp only [standing_raise, heq]
        exact ih _ _ (compareWithEarlier_sound _ hs) hclean

/-! ## Branches that wait and branches that go on

As long as everything fits, a branch that waits in front of a token that it cannot read is worse than any
branch that goes on. So after a round either all branches wait or none does. -/

/-- The first `n` branches are not halted, and they wait if `q` says so. -/
def Level (q : Bool) (n : Nat) (r : Reading) : Prop :=
  ∀ u, u < n → (r.branch u).status.isHalted = false ∧ (r.branch u).status.isPaused = q

variable {q q' : Bool}

/-- What a branch costs on which everything fits. -/
theorem standing_clean (hs : r.Sound text) (h : r.Smooth k) (v : Nat) :
    (r.standing v).inError = (r.branch v).status.isPaused
      ∧ (r.standing v).cost = if (r.branch v).status.isPaused then 600 else 0 := by
  have hlt := hs.branch_top_lt v
  have hcost : (r.top v).cost = 0 := h.cost_eq _ hlt
  obtain ⟨st, hst⟩ := Option.ne_none_iff_exists'.mp (h.state_ne _ hlt)
  have hstate : (r.top v).state = some st := hst
  unfold standing cost state
  simp only [hstate, hcost, Option.isNone_some, Bool.false_and, Bool.or_false, Nat.zero_add, true_and]
  split <;> rfl

theorem compare_of_same {a b : Standing} (herr : a.inError = b.inError) (hcost : a.cost = b.cost) :
    a.compare b = .preferFirst ∨ a.compare b = .undecided ∨ a.compare b = .preferSecond := by
  unfold Standing.compare
  rw [herr, hcost]
  simp only [Bool.not_and_self, Bool.and_not_self, Bool.false_eq_true, if_false, Nat.lt_irrefl]
  split
  · exact Or.inl rfl
  · split
    · exact Or.inr (Or.inr rfl)
    · exact Or.inr (Or.inl rfl)

/-- A branch that waits is worse than one that goes on. -/
theorem compare_of_ne {a b : Standing} (herr : a.inError = q) (hcost : a.cost = if q then 600 else 0)
    (herr' : b.inError = q') (hcost' : b.cost = if q' then 600 else 0) (hne : q ≠ q') :
    a.compare b = if q then .takeSecond else .takeFirst := by
  unfold Standing.compare
  rw [herr, hcost, herr', hcost']
  cases q <;> cases q' <;> first | rfl | exact absurd rfl hne

/-- The branch `v` of `r` has been compared with those before it. The branches up to it are all alike, and
those behind it are still there. -/
structure Levels (v : Nat) (r : Reading) (c : Reading × Nat × Bool) : Prop where
  level : ∃ q, Level q (if c.2.2 then c.2.1 + 1 else c.2.1) c.1
  size_eq : c.1.size + v + 1 = r.size + if c.2.2 then c.2.1 + 1 else c.2.1

theorem Levels.of_size {r' : Reading} {v' : Nat} {c : Reading × Nat × Bool} (h : Levels v' r' c)
    (hsize : r'.size + v = r.size + v') : Levels v r c :=
  ⟨h.level, by have hcount := h.size_eq; omega⟩

/-- The branch `v` waits if `q'` says so, and those before it wait if `q` says so. None of them is
halted. -/
structure Facing (q q' : Bool) (v : Nat) (r : Reading) : Prop where
  lt_size : v < r.size
  level : Level q v r
  not_halted : (r.branch v).status.isHalted = false
  paused_eq : (r.branch v).status.isPaused = q'

/-- The branch stays if there is nothing left to compare it with. -/
theorem Facing.levels_kept (h : Facing q q' v r) (hle : v ≤ w) (hor : q = q' ∨ w = 0) :
    Levels v r (r, v, true) := by
  refine ⟨⟨q', fun u (hu : u < v + 1) => ?_⟩, Nat.add_assoc _ _ _⟩
  rcases Nat.lt_or_eq_of_le (Nat.lt_succ_iff.mp hu) with hlt | rfl
  · obtain rfl : q = q' := hor.resolve_right (by omega)
    exact h.level u hlt
  · exact ⟨h.not_halted, h.paused_eq⟩

theorem Facing.levels_merge? {y : Reading} (hs : r.Sound text) (h : Facing q q' v r)
    (hm : r.merge? w v = some y) : Levels v r (y, v, false) := by
  have hdrops := (merge?_sound hs hm).2
  have hlt := h.lt_size
  refine ⟨⟨q, fun u (hu : u < v) => ?_⟩, ?_⟩
  · rw [hdrops.status_lt u hu]
    exact h.level u hu
  · show y.size + v + 1 = r.size + v
    rw [hdrops.size_eq]
    omega

theorem Facing.levels_removeBranch (h : Facing q q' v r) : Levels v r (r.removeBranch v, v, false) := by
  have hlt := h.lt_size
  refine ⟨⟨q, fun u (hu : u < v) => ?_⟩, ?_⟩
  · rw [branch_removeBranch_lt hu]
    exact h.level u hu
  · show (r.removeBranch v).size + v + 1 = r.size + v
    rw [size_removeBranch hlt]
    omega

/-- Branches of the same kind may change places. -/
theorem Facing.swap (h : Facing q q v r) (hw : w < v) :
    Facing q q v ((r.setBranch w (r.branch v)).setBranch v (r.branch w)) := by
  have hsize : v < (r.setBranch w (r.branch v)).size := by
    rw [size_setBranch]
    exact h.lt_size
  have hv : ((r.setBranch w (r.branch v)).setBranch v (r.branch w)).branch v = r.branch w :=
    branch_setBranch hsize
  refine ⟨by rw [size_setBranch]; exact hsize, fun u hu => ?_, ?_, ?_⟩
  · rw [branch_setBranch_ne (Nat.ne_of_lt hu)]
    by_cases huw : u = w
    · rw [huw, branch_setBranch (Nat.lt_trans hw h.lt_size)]
      exact ⟨h.not_halted, h.paused_eq⟩
    · rw [branch_setBranch_ne huw]
      exact h.level u hu
  · rw [hv]
    exact (h.level w hw).1
  · rw [hv]
    exact (h.level w hw).2

theorem Facing.removeFirst (h : Facing q q' v r) (hv : 0 < v) :
    Facing q q' (v - 1) (r.removeBranch 0) := by
  have hlt := h.lt_size
  have hbranch : (r.removeBranch 0).branch (v - 1) = r.branch v := by
    rw [branch_removeBranch_ge (Nat.zero_le _), Nat.sub_add_cancel hv]
  refine ⟨?_, fun u hu => ?_, ?_, ?_⟩
  · rw [size_removeBranch (by omega)]
    omega
  · rw [branch_removeBranch_ge (Nat.zero_le u)]
    exact h.level (u + 1) (by omega)
  · rw [hbranch]
    exact h.not_halted
  · rw [hbranch]
    exact h.paused_eq

theorem compareWithEarlier_level {s : Standing} (herr : s.inError = q')
    (hcost : s.cost = if q' then 600 else 0) (fuel : Nat) :
    ∀ {w v : Nat} {r : Reading}, r.Sound text → r.Clean k → Facing q q' v r → v < fuel + w →
    q = q' ∨ w = 0 → Levels v r (compareWithEarlier s fuel w v r) := by
  induction fuel with
  | zero =>
    intro w v r _ _ h hfuel hor
    exact h.levels_kept (by omega) hor
  | succ fuel ih =>
    intro w v r hs hclean h hfuel hor
    rw [compareWithEarlier]
    split
    · next hle => exact h.levels_kept hle hor
    · next hle =>
      have hw : w < v := Nat.lt_of_not_le hle
      obtain ⟨herr', hcost'⟩ := standing_clean hs hclean.toSmooth w
      rw [(h.level w hw).2] at herr' hcost'
      by_cases hq : q = q'
      · -- branches of the same kind are merged, or they change places
        subst hq
        rcases compare_of_same (herr'.trans herr.symm) (hcost'.trans hcost.symm) with
          hcmp | hcmp | hcmp <;> rw [hcmp] <;> simp only <;> split
        · next hm => exact h.levels_merge? hs hm
        · exact ih hs hclean h (by omega) (Or.inl rfl)
        · next hm => exact h.levels_merge? hs hm
        · exact ih hs hclean h (by omega) (Or.inl rfl)
        · next hm => exact h.levels_merge? hs hm
        · have hswap := ih ((hs.setBranch (hs.branch v)).setBranch (hs.branch w))
            ((hclean.setBranch (hclean.branch v)).setBranch (hclean.branch w)) (h.swap hw)
            (by omega : v < fuel + (w + 1)) (Or.inl rfl)
          exact hswap.of_size (by rw [size_setBranch, size_setBranch])
      · obtain rfl : w = 0 := hor.resolve_left hq
        rw [compare_of_ne herr' hcost' herr hcost hq]
        cases q with
        | false => exact h.levels_removeBranch
        | true =>
          -- those before the branch are taken away one by one
          have hlt := h.lt_size
          have hrest := ih (hs.removeBranch 0) (hclean.removeBranch 0) (h.removeFirst hw) (by omega)
            (Or.inr rfl)
          exact hrest.of_size (by rw [size_removeBranch (by omega)]; omega)

/-- After the branches have been compared, either all of them wait or none does. -/
theorem prune_level (fuel : Nat) : ∀ (v : Nat) (best : Option Nat) {r : Reading} {q : Bool},
    r.Sound (lowered k text) → r.Clean k → v ≤ r.size → r.size < fuel + v → Level q v r →
    ∃ q', Level q' (prune fuel v best r).1.size (prune fuel v best r).1 := by
  induction fuel with
  | zero => intro v best r q _ _ hle hlt _; omega
  | succ fuel ih =>
    intro v best r q hs h hle hfuel hl
    rw [prune]
    split
    · next hge =>
      exact ⟨q, fun u hu => hl u (Nat.lt_of_lt_of_le hu hge)⟩
    · next hge =>
      have hlt : v < r.size := Nat.lt_of_not_le hge
      split
      · have hsize := size_removeBranch hlt
        exact ih _ _ (hs.removeBranch v) (h.removeBranch v) (by omega) (by omega) fun u hu => by
          rw [branch_removeBranch_lt hu]
          exact hl u hu
      · next hhalt =>
        obtain ⟨herr, hcost⟩ := standing_clean hs h.toSmooth v
        obtain ⟨⟨q'', hlevel⟩, heq⟩ := compareWithEarlier_level herr hcost (r.size + 1) hs h
          ⟨hlt, hl, Bool.eq_false_iff.mpr hhalt, rfl⟩ (by omega) (Or.inr rfl)
        have hsound := compareWithEarlier_sound (s := r.standing v) (r.size + 1) (w := 0) (v := v) hs
        have hclean := (compareWithEarlier_raise (s := r.standing v) (r.size + 1) (w := 0) (v := v) hs h).1
        simp only
        generalize compareWithEarlier (r.standing v) (r.size + 1) 0 v r = c at *
        generalize (if c.2.2 then c.2.1 + 1 else c.2.1) = n at *
        exact ih _ _ hsound hclean (by omega) (by omega) hlevel

/-! ## Preparing the next round -/

/-- What is left for the next round, with the least cost of a branch that goes on. -/
def pruned (r : Reading) : Reading × Option Nat :=
  let p := prune (2 * r.size + 2) 0 none r
  ({ p.1 with branches := p.1.branches.take maxBranches }, p.2)

theorem condense_eq (r : Reading) :
    r.condense = resume (r.pruned.1.size + 1) 0 false r.pruned.2 r.pruned.1 := rfl

theorem pruned_raise (hs : r.Sound (lowered k text)) (h : r.Clean k) :
    r.pruned.1.Clean k ∧ (r.raise k).pruned = (r.pruned.1.raise k, r.pruned.2) := by
  obtain ⟨hclean, heq⟩ := prune_raise (2 * r.size + 2) 0 none hs h
  unfold pruned
  rw [size_raise, heq]
  generalize prune (2 * r.size + 2) 0 none r = p at hclean
  refine ⟨hclean.of_sublist rfl rfl rfl fun _ hb => List.mem_of_mem_take hb, ?_⟩
  unfold raise
  simp only [List.map_take]

theorem pruned_level (hs : r.Sound (lowered k text)) (h : r.Clean k) :
    ∃ q, Level q r.pruned.1.size r.pruned.1 := by
  obtain ⟨q, hl⟩ := prune_level (2 * r.size + 2) 0 none (q := false) hs h
    (Nat.zero_le _) (by omega) fun _ hu => by cases hu
  refine ⟨q, fun u hu => ?_⟩
  unfold pruned at hu ⊢
  generalize prune (2 * r.size + 2) 0 none r = p at hl hu
  have hlen : u < (p.1.branches.take maxBranches).length := hu
  rw [List.length_take] at hlen
  have hbranch : Reading.branch { p.1 with branches := p.1.branches.take maxBranches } u
      = p.1.branch u := by
    unfold Reading.branch
    rw [List.getD_eq_getElem?_getD, List.getD_eq_getElem?_getD, List.getElem?_take_of_lt (by omega)]
  rw [hbranch]
  exact hl u (Nat.lt_of_lt_of_le hlen (Nat.min_le_right _ _))

/-- No branch has to be resumed. -/
def Calm (r : Reading) : Prop :=
  maxBranches ≤ r.finishedCount ∨ ∀ u, (r.branch u).status.isPaused = false

/-- If a branch waits nevertheless, then enough has been read without it. -/
theorem Calm.full (h : r.Calm) (hst : (r.branch v).status = .paused token) :
    maxBranches ≤ r.finishedCount := by
  rcases h with hle | hno
  · exact hle
  · have hv := hno v
    rw [hst] at hv
    cases hv

/-- As long as no branch has to be resumed, the readings go on alike. -/
theorem resume_raise (fuel : Nat) : ∀ {v : Nat} {running : Bool} {best : Option Nat} {r : Reading},
    r.Clean k → r.Calm →
    (resume fuel v running best r).1.Clean k
      ∧ resume fuel v running best (r.raise k)
        = ((resume fuel v running best r).1.raise k, (resume fuel v running best r).2) := by
  induction fuel with
  | zero => intro v running best r h _; exact ⟨h, rfl⟩
  | succ fuel ih =>
    intro v running best r h hcalm
    have hcount : (r.raise k).finishedCount = r.finishedCount := rfl
    have hstep : ∀ running, (resume fuel (v + 1) running best r).1.Clean k
        ∧ resume fuel (v + 1) running best (r.raise k)
          = ((resume fuel (v + 1) running best r).1.raise k,
            (resume fuel (v + 1) running best r).2) := fun running => ih h hcalm
    rw [resume, resume, size_raise, branch_raise]
    split
    · exact ⟨h, rfl⟩
    · cases hst : (r.branch v).status with
      | active =>
        simp only [Branch.raise, hst, Status.raise]
        exact hstep true
      | halted =>
        simp only [Branch.raise, hst, Status.raise]
        exact hstep true
      | paused token =>
        have hfull := hcalm.full hst
        simp only [Branch.raise, hst, Status.raise, hcount, Nat.not_lt.mpr hfull, decide_false,
          Bool.and_false, Bool.false_eq_true, if_false, removeBranch_raise]
        exact ih (h.removeBranch v) (Or.inl hfull)

/-- What remains after the first branch, which is in front of a token that does not fit, has been
resumed. -/
def struck (r : Reading) (token : Tree) : Reading :=
  let x := (r.setStatus 0 .active).handleError 0 token
  { x with
    branches := x.branches.take 1
      ++ ((x.branches.take r.size).drop 1).filter (fun b => !b.status.isPaused)
      ++ x.branches.drop r.size }

/-- The reading is stuck: all branches are in front of tokens that do not fit. -/
structure Stuck (r : Reading) (token : Tree) : Prop where
  nonempty : 0 < r.size
  status_eq : (r.branch 0).status = .paused token
  level : Level true r.size r
  count_lt : r.finishedCount < maxBranches

theorem Stuck.condense_eq (h : r.pruned.1.Stuck token) :
    r.condense = (r.pruned.1.struck token, some (r.pruned.1.cost 0)) := by
  rw [Reading.condense_eq, resume, if_neg (Nat.not_le.mpr h.nonempty), h.status_eq]
  simp only [h.count_lt, decide_true, Bool.not_false, Bool.and_self, if_true]
  rfl

theorem Stuck.raise (h : r.Stuck token) (k : Nat) : (r.raise k).Stuck (token.raise k) where
  nonempty := by rw [size_raise]; exact h.nonempty
  status_eq := by
    rw [branch_raise]
    show (r.branch 0).status.raise k = _
    rw [h.status_eq]
    rfl
  level := by
    rw [size_raise]
    intro u hu
    rw [branch_raise, isHalted_raise, isPaused_raise]
    exact h.level u hu
  count_lt := h.count_lt

theorem condense_raise (hs : r.Sound (lowered k text)) (h : r.Clean k) :
    (r.pruned.1.Calm ∧ r.condense.1.Clean k
        ∧ (r.raise k).condense = (r.condense.1.raise k, r.condense.2))
      ∨ ∃ token, r.pruned.1.Stuck token := by
  obtain ⟨hclean, heq⟩ := pruned_raise hs h
  obtain ⟨q, hl⟩ := pruned_level hs h
  by_cases hno : r.pruned.1.Calm
  · refine Or.inl ⟨hno, ?_⟩
    rw [condense_eq, condense_eq, heq, size_raise]
    exact resume_raise _ hclean hno
  · right
    obtain ⟨hlt, hsome⟩ := not_or.mp hno
    obtain ⟨u, hu⟩ := not_forall.mp hsome
    have hpaused : (r.pruned.1.branch u).status.isPaused = true := by
      simpa using hu
    have hu : u < r.pruned.1.size := by
      refine Nat.lt_of_not_le fun hge => ?_
      rw [branch_of_size_le hge] at hpaused
      cases hpaused
    have hq : q = true := (hl u hu).2.symm.trans hpaused
    subst hq
    have hpos : 0 < r.pruned.1.size := Nat.lt_of_le_of_lt (Nat.zero_le _) hu
    have hfirst := (hl 0 hpos).2
    cases hst : (r.pruned.1.branch 0).status with
    | paused token => exact ⟨token, hpos, hst, hl, Nat.lt_of_not_le hlt⟩
    | active => rw [hst] at hfirst; cases hfirst
    | halted => rw [hst] at hfirst; cases hfirst

end SpanIndex.Syntax.Reading
