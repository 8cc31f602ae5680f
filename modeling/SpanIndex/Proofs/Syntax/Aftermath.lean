import SpanIndex.Proofs.Syntax.Struck

/-!
# Reading on

What branches have to answer for lasts: a round of reading leaves them as they are to be (`Lasting`), and
so does the comparison between the rounds. Before the first error no branch is lost, and after it each of
them has to answer for it, so that a text in which something did not fit is never read without a fault
(`readAll_hasFault`).
-/

namespace SpanIndex.Syntax.Reading

variable {text : List Char} {live : Nat → Prop} {done : Option Tree → Prop} {r x y : Reading}
  {k u v w n : Nat} {b : Branch} {st : State} {p : Place} {token : Tree} {below : Option State}
  {Looks : View → Prop} {Good : Tree → Prop}

/-- A file that is finished is as it should be. -/
def Holds (Good : Tree → Prop) (best : Option Tree) : Prop := ∀ t, best = some t → Good t

theorem absorbs_holds (h : ∀ t, t.hasFault = true → Good t) : Absorbs (Holds Good) := by
  intro best roots hbest hroots t hfin
  rcases foldl_betterTree hfin with hold | hnew
  · exact hbest t hold
  · exact h t (hroots t hnew).2

/-- What branches look like lasts as they read on, and makes files what they should be. Only branches that
answer for an error may be lost. -/
structure Lasting (Looks : View → Prop) (Good : Tree → Prop) : Prop where
  halted : ∀ i, i.status.isHalted = true → Looks i
  goesOn : ∀ i j, Looks i → i.status = .active → i.state ≠ none → j.cost = i.cost → j.state ≠ none →
    (j.waypoints = none ∨ j.waypoints = i.waypoints) → Looks j
  lost : ∀ i, Looks i → i.status = .active → i.state = none →
    (0 < i.cost ∨ i.waypoints = none) ∧ (∀ j, j.Marked → Looks j) ∧ ∀ t, t.hasFault = true → Good t
  finishes : ∀ i t, Looks i → i.status = .active → i.state ≠ none →
    (0 < i.cost → t.hasFault = true) → Good t

/-- All branches look as they should, and their costs come from the trees on them. -/
structure Carries (text : List Char) (Looks : View → Prop) (Good : Tree → Prop) (r : Reading) : Prop where
  sound : r.Sound text
  traced : ∃ live, Traced live (Holds Good) r
  looks : ∀ u, u < r.size → Looks (r.view u)

/-! ## Changing one branch -/

theorem view_push {t : Tree} {st : Option State} (hv : v < r.size) :
    (r.push v (some t) st).view v
      = ⟨(r.top v).cost + t.facts.cost, st, (r.branch v).status, (r.branch v).waypoints⟩ := by
  unfold view
  rw [cost_push hv, state_push hv, status_push, waypoints_push]

theorem Carries.change (h : Carries text Looks Good x) (hs : y.Sound text)
    (ht : ∃ live, Traced live (Holds Good) y) (hsize : y.size = x.size)
    (hview : ∀ u, u ≠ v → y.view u = x.view u) (hv : Looks (y.view v)) : Carries text Looks Good y where
  sound := hs
  traced := ht
  looks := fun u hu => by
    by_cases huv : u = v
    · rw [huv]; exact hv
    · rw [hview u huv]; exact h.looks u (hsize ▸ hu)

theorem Carries.setBranch (h : Carries text Looks Good r) (hv : v < r.size) (hb : r.BranchSound text b)
    (htb : ∀ live, Traced live (Holds Good) r → BranchTraced live b)
    (hlooks : Looks ⟨(r.frame b.top).cost, (r.frame b.top).state, b.status, b.waypoints⟩) :
    Carries text Looks Good (r.setBranch v b) := by
  obtain ⟨live, ht⟩ := h.traced
  refine h.change (v := v) (h.sound.setBranch hb) ⟨live, ht.setBranch (htb live ht)⟩ (size_setBranch ..)
    (fun u hu => view_setBranch_ne hu) ?_
  rw [view_setBranch hv]
  exact hlooks

theorem Carries.removeBranch (h : Carries text Looks Good r) (hw : w < r.size) :
    Carries text Looks Good (r.removeBranch w) := by
  obtain ⟨live, ht⟩ := h.traced
  refine ⟨h.sound.removeBranch w, ⟨live, ht.removeBranch w⟩, fun u hu => ?_⟩
  rw [size_removeBranch hw] at hu
  by_cases huw : u < w
  · rw [view_removeBranch_lt huw]
    exact h.looks u (by omega)
  · rw [view_removeBranch_ge (Nat.le_of_not_lt huw)]
    exact h.looks (u + 1) (by omega)

theorem Carries.merge? (h : Carries text Looks Good r) (hm : r.merge? v w = some x) :
    Carries text Looks Good x := by
  obtain ⟨live, ht⟩ := h.traced
  obtain ⟨htx, hd⟩ := ht.merge? h.sound hm
  refine ⟨(merge?_sound h.sound hm).1, ⟨live, htx⟩, fun u hu => ?_⟩
  have hlt := hd.lt_size
  rw [hd.size_eq] at hu
  by_cases huw : u < w
  · rw [hd.view_lt huw]
    exact h.looks u (by omega)
  · rw [hd.view_ge (Nat.le_of_not_lt huw)]
    exact h.looks (u + 1) (by omega)

/-- Branches may be left out. -/
theorem Carries.of_sublist (h : Carries text Looks Good r) (hf : x.frames = r.frames)
    (hfin : x.finished = r.finished) (hb : ∀ b ∈ x.branches, b ∈ r.branches) :
    Carries text Looks Good x := by
  have hframe : ∀ n, x.frame n = r.frame n := fun n => by unfold frame; rw [hf]
  obtain ⟨live, ht⟩ := h.traced
  refine ⟨h.sound.of_sublist hf hfin hb, ⟨live, ht.of_sublist hf hfin hb⟩, fun u hu => ?_⟩
  obtain ⟨u', hu', he⟩ := mem_branches_iff.mp (hb _ (mem_branches_iff.mpr ⟨u, hu, rfl⟩))
  rw [show x.view u = r.view u' from view_congr (fun n => by rw [hframe]) (fun n => by rw [hframe])
    (by rw [he]) (by rw [he]) (by rw [he])]
  exact h.looks u' hu'

/-! ## One token -/

theorem Carries.halt (hl : Lasting Looks Good) (h : Carries text Looks Good r) (hv : v < r.size) :
    Carries text Looks Good (r.setStatus v .halted) :=
  h.setBranch hv ((h.sound.branch v).imp_right fun _ _ hp => by cases hp)
    (fun _ _ => ⟨(fun hh => by cases hh), fun _ ht => by cases ht⟩) (hl.halted _ rfl)

theorem Stands.state_ne (hv : Stands r v p (some st)) : r.state v ≠ none := by
  rw [hv.state_eq]
  exact Option.some_ne_none st

theorem Carries.pause (hl : Lasting Looks Good) (h : Carries text Looks Good r)
    (hv : Stands r v p (some st)) (ht : TokenAt text p token) (hcost : token.facts.cost = 0) :
    Carries text Looks Good (r.setStatus v (.paused token)) := by
  have hne := hv.state_ne
  refine h.setBranch hv.lt_size ⟨h.sound.branch_top_lt v, fun t hp => ?_⟩ (fun live ht' => ⟨?_, ?_⟩)
    (hl.goesOn (r.view v) _ (h.looks v hv.lt_size) hv.active hne rfl hne (Or.inr rfl))
  · cases hp
    show TokenAt text (r.place v) token
    rw [hv.place_eq]
    exact ht
  · exact fun _ => (ht'.branch v).live_top (not_halted_of_active hv.active)
  · rintro t hp
    cases hp
    exact hcost

/-- A tree that costs nothing is put on the branch `v`. -/
theorem Carries.push {t : Tree} {next : State} (hl : Lasting Looks Good) (h : Carries text Looks Good r)
    (hs : (r.push v (some t) (some next)).Sound text) (hv : Stands r v p (some st)) (ht : t.Honest)
    (hcost : t.facts.cost = 0) (hlabel : t.facts.label ≠ .error)
    (hextra : t.facts.extra = true → (some st == some next) = true) :
    Carries text Looks Good (r.push v (some t) (some next)) := by
  have hne := hv.state_ne
  obtain ⟨live, htraced⟩ := h.traced
  refine h.change hs ⟨live, htraced.push (h.sound.branch_top_lt v) (not_halted_of_active hv.active)
    (traces_pushed r v next ht (fun he => absurd he hlabel) fun hx _ => ?_)⟩ (size_push ..)
    (fun u hu => view_push_ne h.sound hu) ?_
  · rw [hv.state_eq]
    exact hextra hx
  · rw [view_push hv.lt_size, hcost]
    exact hl.goesOn (r.view v) _ (h.looks v hv.lt_size) hv.active hne rfl (Option.some_ne_none _)
      (Or.inr rfl)

theorem Carries.shift (hl : Lasting Looks Good) (h : Carries text Looks Good r)
    (hv : Stands r v p (some st)) (ht : TokenAt text p token) (hcost : token.facts.cost = 0) :
    Carries text Looks Good (r.shift v st token) := by
  have hsound := hv.shift_sound h.sound ht
  unfold Reading.shift at hsound ⊢
  split
  · next next hnext =>
    rw [hnext] at hsound
    obtain ⟨s, hlabel, -⟩ := symbol_of_stateAfter hnext
    refine h.push hl hsound hv (TokenAt.honest ht hcost) hcost ?_ fun hx => ?_
    · rw [hlabel]
      exact fun he => by cases he
    · rw [ht.extra_eq, hlabel] at hx
      cases hx
  · exact h.halt hl hv.lt_size

/-- Productions are closed on the branch `v`. What comes of it may take its place. -/
theorem Carries.closeBy {actions : List State.Action} (hl : Lasting Looks Good)
    (h : Carries text Looks Good r) (hv : Stands r v p (some st))
    (hcloses : ∀ k, .reduce k ∈ actions → st.Closes k) :
    let found := actions.foldl (Reading.closeBy v) (r, none)
    Carries text Looks Good found.1 ∧ ∀ u, r.size ≤ u → u < found.1.size →
      (found.1.branch u).waypoints = none
        ∧ Looks { found.1.view u with waypoints := (found.1.branch v).waypoints } := by
  intro found
  have hclosed : Closed text r v found :=
    (closed_start h.sound v).foldl_closeBy h.sound hv.lt_size hv.state_eq hcloses
  have hne := hv.state_ne
  obtain ⟨live, ht⟩ := h.traced
  obtain ⟨htf, hb⟩ := (closed_start h.sound v).foldl_closeBy_traced ht (Bears.refl r _) h.sound hv.lt_size
    (not_halted_of_active hv.active) hv.state_eq hcloses
  have hnew : ∀ u, r.size ≤ u → u < found.1.size → ∀ ws, ws = none ∨ ws = (r.branch v).waypoints →
      Looks { found.1.view u with waypoints := ws } := fun u hle hlt ws hws =>
    hl.goesOn (r.view v) _ (h.looks v hv.lt_size) hv.active hne (hb.cost_new u hle hlt)
      (hb.state_new u hle hlt) hws
  refine ⟨⟨hclosed.sound, ⟨live, htf⟩, fun u hu => ?_⟩, fun u hle hlt =>
    ⟨hb.waypoints_new u hle hlt, hnew u hle hlt _ (Or.inr (hb.waypoints_eq v hv.lt_size))⟩⟩
  by_cases hlt : u < r.size
  · rw [hb.toRetains.view h.sound hlt]
    exact h.looks u hlt
  · have hle := Nat.le_of_not_lt hlt
    exact hnew u hle hu _ (Or.inl (hb.waypoints_new u hle hu))

/-- A branch that has just arisen takes the place of another one. -/
theorem Carries.replaceBranch (h : Carries text Looks Good r) (hvw : v < w) (hw : w < r.size)
    (hways : (r.branch w).waypoints = none)
    (hv : Looks { r.view w with waypoints := (r.branch v).waypoints }) :
    Carries text Looks Good (r.replaceBranch w v) := by
  unfold Reading.replaceBranch
  rw [if_neg (by simp only [beq_iff_eq]; omega)]
  extract_lets b b'
  have hb' : b' = { r.branch w with waypoints := (r.branch v).waypoints } := by
    show { r.branch w with waypoints := ((r.branch w).waypoints <|> (r.branch v).waypoints) } = _
    rw [hways]
    rfl
  rw [hb']
  have hset : Carries text Looks Good
      (r.setBranch v { r.branch w with waypoints := (r.branch v).waypoints }) :=
    h.setBranch (Nat.lt_trans hvw hw) (h.sound.branch w)
      (fun live ht => ⟨(ht.branch w).live_top, (ht.branch w).paused⟩) hv
  exact hset.removeBranch (by rw [size_setBranch]; exact hw)

theorem accept_carries (hl : Lasting Looks Good) (h : Carries text Looks Good r)
    (hv : Stands r v p (some st)) (ht : TokenAt text p token)
    (hacc : State.Action.accept ∈ actionsAt st token.facts.label) :
    Carries text Looks Good (r.accept v token) := by
  have hlooks := h.looks v hv.lt_size
  have hne := hv.state_ne
  obtain ⟨hend, k, hk, hhead⟩ := accept_mem_actionsAt (h.sound.state_bounded hv.state_eq) hacc
  have hx : token.facts.extra = true := by
    rw [ht.extra_eq]
    exact beq_iff_eq.mpr hend
  have hfile := onFile_of_goal h.sound hhead
  have htop : (r.branch v).top < r.frames.size ∧ HeldBy ⟨k, 1⟩ (r.frame (r.branch v).top).state :=
    ⟨h.sound.branch_top_lt v, st, hv.state_eq, hk⟩
  obtain ⟨live, htraced⟩ := h.traced
  have hroots : Holds Good ((r.rootsOf v token).foldl betterTree r.finished) := by
    intro t hfin
    rcases foldl_betterTree hfin with hold | hnew
    · exact htraced.finished t hold
    · exact hl.finishes (r.view v) t hlooks hv.active hne fun hpos =>
        hasFault_of_rootsOf htraced h.sound hv ht hx hfile htop hpos hnew
  refine h.change (accept_sound _ h.sound hv ht hx hfile htop)
    ⟨_, accept_traced (htraced.halt v) h.sound hv.lt_size hroots⟩ (size_accept hv.lt_size)
    (fun u hu => view_accept_ne h.sound hv.lt_size hu) (hl.halted _ ?_)
  rw [status_accept hv.lt_size]
  rfl

/-- Branches that have to answer for an error look as they should. -/
theorem Carries.strikes (h : Carries text Looks Good r) (hs : x.Sound text)
    (ht : ∃ live, Traced live (Holds Good) x) (hstr : Strikes v r.size r x)
    (hmarked : ∀ j : View, j.Marked → Looks j) (hself : (x.view v).Marked) :
    Carries text Looks Good x where
  sound := hs
  traced := ht
  looks := fun u hu => by
    by_cases huv : u = v
    · rw [huv]
      exact hmarked _ hself
    · by_cases hlt : u < r.size
      · rw [hstr.view_eq u hlt huv]
        exact h.looks u hlt
      · exact hmarked _ (hstr.marked u (Nat.le_of_not_lt hlt) hu)

/-- A branch that is lost answers for an error, and so does all that comes of it. -/
theorem recover_carries (hl : Lasting Looks Good) (h : Carries text Looks Good r)
    (hv : Stands r v p none) (ht : TokenAt text p token) (hcost : token.facts.cost = 0) :
    Carries text Looks Good (r.recover v token) := by
  obtain ⟨hmark, hmarked, hgood⟩ := hl.lost _ (h.looks v hv.lt_size) hv.active hv.state_eq
  obtain ⟨live, htraced⟩ := h.traced
  have hcostly : Costly r v ((r.branch v).waypoints.getD []) := by
    rcases hmark with hpos | hnone
    · exact costly_of_pos htraced h.sound (not_halted_of_active hv.active) hpos _
    · rw [show (r.branch v).waypoints = none from hnone]
      exact fun w hw => by cases hw
  obtain ⟨htraced', hstr, hself⟩ := recover_strikes (absorbs_holds hgood) htraced h.sound hv ht
    hcost hcostly
  exact h.strikes (recover_sound h.sound hv ht) htraced' hstr hmarked hself

theorem cost_asIdentifier (t : Tree) : (asIdentifier t).facts.cost = t.facts.cost := by
  cases t
  rfl

theorem readToken_carries (hl : Lasting Looks Good) (fuel : Nat) :
    ∀ {token : Tree} {r : Reading} {below : Option State}, Carries text Looks Good r →
    Stands r v p below → TokenAt text p token → token.facts.cost = 0 →
    Carries text Looks Good (readToken v fuel token r) := by
  induction fuel with
  | zero => intro token r below h hv _ _; exact h.halt hl hv.lt_size
  | succ fuel ih =>
    intro token r below h hv ht hcost
    rw [readToken]
    split
    · next hst => exact recover_carries hl h ⟨hv.lt_size, hv.active, hv.place_eq, hst⟩ ht hcost
    · next st hst =>
      obtain rfl : below = some st := hv.state_eq.symm.trans hst
      have hbounded := h.sound.state_bounded hst
      extract_lets label actions found
      split
      · -- a comment is set apart and the state stays
        next hc =>
        have hlabel := beq_iff_eq.mp hc
        have hfits := fits_extra (ht.sound.asExtra hlabel) (Tree.extra_asExtra token)
          ((Tree.before_asExtra token).trans ht.before_eq)
          fun st' hst' i hi _ => (⟨st', hst', hi⟩ : HeldBy i (some st))
        refine h.push hl (hv.push h.sound hfits fun y hy => Option.some.inj hy ▸ hbounded).1 hv
          ((TokenAt.honest ht hcost).asExtra fun he => ?_) (by rw [Tree.cost_asExtra]; exact hcost) ?_
          fun _ => beq_state_iff.mpr rfl
        · cases hlabel.symm.trans he
        · rw [Tree.label_asExtra]
          exact fun he => by cases hlabel.symm.trans he
      · split
        · next hacc => exact accept_carries hl h hv ht (List.contains_iff_mem.mp hacc)
        · have hcloses : ∀ k, .reduce k ∈ actions → st.Closes k := fun k hk =>
            closes_of_mem_actionsAt hbounded hk
          have hclosed : Closed text r v found :=
            (closed_start h.sound v).foldl_closeBy h.sound hv.lt_size hst hcloses
          obtain ⟨hfound, hnew⟩ : Carries text Looks Good found.1 ∧ ∀ u, r.size ≤ u →
              u < found.1.size → (found.1.branch u).waypoints = none
                ∧ Looks { found.1.view u with waypoints := (found.1.branch v).waypoints } :=
            h.closeBy hl hv hcloses
          have hvf : Stands found.1 v p (some st) :=
            hclosed.grows.keeps.stands h.sound hv hv.lt_size
          split
          · exact hfound.shift hl hvf ht hcost
          · split
            · -- the branch of the last production that was closed reads the token in its place
              next w hw =>
              obtain ⟨hle, hlt⟩ := hclosed.new w hw
              obtain ⟨-, y, hy⟩ := hclosed.stands_replaceBranch hv.lt_size hw
              obtain ⟨hways, hlooks⟩ := hnew w hle hlt
              exact ih (hfound.replaceBranch (Nat.lt_of_lt_of_le hv.lt_size hle) hlt hways hlooks)
                (hv.place_eq ▸ hy) ht hcost
            · split
              · exact hfound.halt hl hvf.lt_size
              · split
                · next hcan =>
                  obtain ⟨hk, hne⟩ := keyword_of_canBeIdentifier hcan
                  exact ih hfound hvf (asIdentifier_tokenAt ht hk hne)
                    (by rw [cost_asIdentifier]; exact hcost)
                · exact hfound.pause hl hvf ht hcost

theorem cost_tokenAt (state : Option State) (p : Place) : (tokenAt state p).facts.cost = 0 := by
  unfold tokenAt
  extract_lets expected token token'
  split
  · rfl
  · rfl
  · split <;> rfl
  · rfl

/-! ## One round -/

theorem readRound_carries (hl : Lasting Looks Good) (fuel : Nat) : ∀ {v : Nat} {r : Reading},
    Carries text Looks Good r → Carries text Looks Good (readRound fuel v r) := by
  induction fuel with
  | zero => intro v r h; exact h
  | succ fuel ih =>
    intro v r h
    rw [readRound]
    split
    · exact h
    · split
      · next hv =>
        have hx : Carries text Looks Good (r.readNext v) :=
          readToken_carries hl _ h (stands_of_isActive hv) (tokenAt_tokenAt (h.sound.place_in' v) _)
            (cost_tokenAt _ _)
        extract_lets x here
        split
        · exact ih (hx.of_sublist rfl rfl fun _ hb => hb)
        · exact ih hx
      · exact ih h

theorem Carries.swap (h : Carries text Looks Good r) (hw : w < r.size) (hv : v < r.size) :
    Carries text Looks Good ((r.setBranch w (r.branch v)).setBranch v (r.branch w)) := by
  refine h.of_sublist rfl rfl fun b hb => ?_
  rcases List.mem_or_eq_of_mem_set hb with hb | rfl
  · rcases List.mem_or_eq_of_mem_set hb with hb | rfl
    · exact hb
    · exact mem_branches_iff.mpr ⟨v, hv, rfl⟩
  · exact mem_branches_iff.mpr ⟨w, hw, rfl⟩

theorem compareWithEarlier_carries {s : Standing} (fuel : Nat) : ∀ {w v : Nat} {r : Reading},
    Carries text Looks Good r → v < r.size →
    Carries text Looks Good (compareWithEarlier s fuel w v r).1 := by
  induction fuel with
  | zero => intro w v r h _; exact h
  | succ fuel ih =>
    intro w v r h hv
    rw [compareWithEarlier]
    split
    · exact h
    · next hvw =>
      have hw : w < r.size := Nat.lt_trans (Nat.lt_of_not_le hvw) hv
      split
      · exact h.removeBranch hv
      · split
        · next hm => exact h.merge? hm
        · exact ih h hv
      · split
        · next hm => exact h.merge? hm
        · exact ih h hv
      · split
        · next hm => exact h.merge? hm
        · exact ih (h.swap hw hv) (by rw [size_setBranch, size_setBranch]; exact hv)
      · exact ih (h.removeBranch hw) (by rw [size_removeBranch hw]; omega)

theorem prune_carries (fuel : Nat) : ∀ {v : Nat} {best : Option Nat} {r : Reading},
    Carries text Looks Good r → Carries text Looks Good (prune fuel v best r).1 := by
  induction fuel with
  | zero => intro v best r h; exact h
  | succ fuel ih =>
    intro v best r h
    rw [prune]
    split
    · exact h
    · next hlt =>
      have hv : v < r.size := Nat.lt_of_not_le hlt
      split
      · exact ih (h.removeBranch hv)
      · exact ih (compareWithEarlier_carries _ h hv)

/-! ## After the first error -/

/-- Branches that have to answer for an error always will, and lead to files with a fault. -/
theorem lasting_marked : Lasting View.Marked (fun t => t.hasFault = true) where
  halted := fun _ hi => Or.inl hi
  goesOn := fun i j hi hactive hne hcost _ _ => by
    rcases hi with hh | hpos | ⟨-, hnone, -⟩
    · rw [hactive] at hh
      cases hh
    · exact Or.inr (Or.inl (hcost ▸ hpos))
    · exact absurd hnone hne
  lost := fun i hi hactive _ => by
    refine ⟨?_, fun _ hj => hj, fun _ ht => ht⟩
    rcases hi with hh | hpos | ⟨-, -, hnone⟩
    · rw [hactive] at hh
      cases hh
    · exact Or.inl hpos
    · exact Or.inr hnone
  finishes := fun i t hi hactive hne hfault => by
    rcases hi with hh | hpos | ⟨-, hnone, -⟩
    · rw [hactive] at hh
      cases hh
    · exact hfault hpos
    · exact absurd hnone hne

/-- A branch that waits in front of a token is resumed. -/
theorem resumed_strikes (habs : Absorbs done) (h : Traced live done r) (hs : r.Sound text)
    (hv : v < r.size) (hpaused : (r.branch v).status = .paused token)
    (hfirst : (r.top v).cost = 0 → r.state v ≠ none ∧ (r.branch v).waypoints = none) :
    let x := (r.setStatus v .active).handleError v token
    x.Sound text ∧ (∃ live', Traced live' done x) ∧ Strikes v r.size r x ∧ (x.view v).Marked := by
  have hb : (r.setStatus v .active).branch v = { r.branch v with status := .active } :=
    branch_setBranch hv
  have hs1 : (r.setStatus v .active).Sound text := hs.setStatus fun _ hp => by cases hp
  have hv1 := stands_resumed hv
  have ht1 : Traced live done (r.setStatus v .active) :=
    h.setBranch ⟨fun _ => (h.branch v).live_top (by rw [hpaused]; rfl), fun _ ht => by cases ht⟩
  have htoken := (hs.branch v).2 token hpaused
  obtain ⟨htraced, hstr, hmark⟩ := handleError_strikes habs ht1 hs1 hv1 htoken
    ((h.branch v).paused token hpaused) (by
      unfold Reading.top Reading.state
      unfold Reading.top
      rw [hb]
      exact hfirst)
  have hsize : (r.setStatus v .active).size = r.size := size_setBranch ..
  rw [hsize] at hstr
  refine ⟨handleError_sound hs1 hv1 htoken, htraced, ⟨hstr.le_size, fun u hu hne => ?_, hstr.marked⟩, hmark⟩
  rw [hstr.view_eq u hu hne]
  exact view_setBranch_ne hne

/-- A reading in which all branches have to answer for an error. -/
def Answers (text : List Char) (r : Reading) : Prop := Carries text View.Marked (fun t => t.hasFault = true) r

theorem resume_answers (fuel : Nat) : ∀ {v : Nat} {running : Bool} {best : Option Nat} {r : Reading},
    Answers text r → Answers text (resume fuel v running best r).1 := by
  induction fuel with
  | zero => intro v running best r h; exact h
  | succ fuel ih =>
    intro v running best r h
    rw [resume]
    split
    · exact h
    · next hlt =>
      have hv : v < r.size := Nat.lt_of_not_le hlt
      split
      · next token hpaused =>
        split
        · extract_lets cost older x later branches
          have hpos : (r.top v).cost ≠ 0 := by
            rcases h.looks v hv with hh | hpos | ⟨hactive, -⟩
            · rw [show (r.view v).status = _ from hpaused] at hh
              cases hh
            · exact Nat.ne_of_gt hpos
            · cases hpaused.symm.trans hactive
          obtain ⟨live, ht⟩ := h.traced
          obtain ⟨hsx, htx, hstr, hself⟩ : x.Sound text ∧ (∃ live', Traced live' _ x)
              ∧ Strikes v r.size r x ∧ (x.view v).Marked :=
            resumed_strikes (absorbs_holds fun _ h => h) ht h.sound hv hpaused fun hz => absurd hz hpos
          have hx : Answers text x := Carries.strikes h hsx htx hstr (fun _ hj => hj) hself
          refine Carries.of_sublist hx rfl rfl fun b hb => ?_
          rw [List.mem_append, List.mem_append, List.mem_filter] at hb
          rcases hb with (hb | ⟨hb, -⟩) | hb
          · exact List.mem_of_mem_take hb
          · exact List.mem_of_mem_take (List.mem_of_mem_drop hb)
          · exact List.mem_of_mem_drop hb
        · exact ih (h.removeBranch hv)
      · exact ih h

theorem condense_answers (h : Answers text r) : Answers text r.condense.1 := by
  unfold condense
  exact resume_answers _ ((prune_carries _ h).of_sublist rfl rfl fun b hb => List.mem_of_mem_take hb)

/-- What is read in the end has been found in the next round or after it. -/
theorem readAll_succ {fuel : Nat} {t : Tree} (h : readAll (fuel + 1) r = some t) :
    (readRound (64 * (r.size + 4)) 0 r).condense.1.finished = some t
      ∨ readAll fuel (readRound (64 * (r.size + 4)) 0 r).condense.1 = some t := by
  rw [readAll] at h
  split at h
  · next hfin =>
    split at h
    · exact Or.inl (hfin.trans h)
    · exact Or.inr h
  · split at h
    · cases h
    · exact Or.inr h

/-- A text in which something did not fit is not read without a fault. -/
theorem readAll_hasFault (fuel : Nat) : ∀ {r : Reading} {t : Tree}, Answers text r →
    readAll fuel r = some t → t.hasFault = true := by
  have hfinished : ∀ {r : Reading} {t : Tree}, Answers text r → r.finished = some t →
      t.hasFault = true := by
    intro r t h ht
    obtain ⟨live, htraced⟩ := h.traced
    exact htraced.finished t ht
  induction fuel with
  | zero => intro r t h ht; exact hfinished h ht
  | succ fuel ih =>
    intro r t h ht
    have hround := condense_answers (readRound_carries lasting_marked (64 * (r.size + 4)) (v := 0) h)
    exact (readAll_succ ht).elim (hfinished hround) (ih hround)

end SpanIndex.Syntax.Reading
