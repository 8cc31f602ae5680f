import SpanIndex.Proofs.Syntax.Closing
import SpanIndex.Proofs.Syntax.Grammar

/-!
# The invariant after a syntax error

Whatever is done about a token that does not fit, the stack stays sound: supplied tokens and stretches of
skipped text are trees like others, only that they say so. The branches that are there before are left
where they stand, up to the one that is dealt with (`Reading.Keeps`).
-/

namespace SpanIndex.Syntax.Reading

variable {text : List Char} {r r' : Reading} {v w first older : Nat} {p : Place} {st : State}
  {label : Option Label} {b : Branch}

/-! ## Closing whatever can be closed -/

/-- The branch `first` and those from `older` on are all read on from the place `p`. -/
structure Front (first older : Nat) (p : Place) (r : Reading) : Prop where
  first_lt : first < older
  le_size : older ≤ r.size
  active : ∀ u, u = first ∨ older ≤ u → u < r.size → (r.branch u).status = .active
  place_eq : ∀ u, u = first ∨ older ≤ u → u < r.size → r.place u = p

theorem Front.drops (hf : Front first older p r) (hd : Drops w r r') (hw : older ≤ w) :
    Front first older p r' where
  first_lt := hf.first_lt
  le_size := by
    have := hd.lt_size
    rw [hd.size_eq]
    omega
  active := fun u hu hlt => by
    rw [hd.size_eq] at hlt
    by_cases huw : u < w
    · rw [hd.status_lt u huw]
      exact hf.active u hu (by omega)
    · rw [hd.status_ge u (by omega)]
      exact hf.active (u + 1) (by omega) (by omega)
  place_eq := fun u hu hlt => by
    rw [hd.size_eq] at hlt
    by_cases huw : u < w
    · rw [hd.place_lt huw]
      exact hf.place_eq u hu (by omega)
    · rw [hd.place_ge (by omega)]
      exact hf.place_eq (u + 1) (by omega) (by omega)

theorem Front.grows (hf : Front first older p r) (hr : r.Sound text) (hg : Grows r.size p r r') :
    Front first older p r' where
  first_lt := hf.first_lt
  le_size := Nat.le_trans hf.le_size hg.keeps.le_size
  active := fun u hu hlt => by
    by_cases hold : u < r.size
    · rw [hg.keeps.status_eq u hold]
      exact hf.active u hu hold
    · exact hg.active u (by omega) hlt
  place_eq := fun u hu hlt => by
    by_cases hold : u < r.size
    · rw [hg.keeps.place hr hold]
      exact hf.place_eq u hu hold
    · exact hg.place_eq u (by omega) hlt

theorem Front.setBranch (hf : Front first older p r) (hb : b.status = .active)
    (hp : (r.frame b.top).place = p) : Front first older p (r.setBranch v b) where
  first_lt := hf.first_lt
  le_size := by rw [size_setBranch]; exact hf.le_size
  active := fun u hu hlt => by
    rw [size_setBranch] at hlt
    by_cases huv : u = v
    · subst huv
      rw [branch_setBranch hlt, hb]
    · rw [branch_setBranch_ne huv]
      exact hf.active u hu hlt
  place_eq := fun u hu hlt => by
    rw [size_setBranch] at hlt
    show (r.frame ((r.setBranch v b).branch u).top).place = p
    by_cases huv : u = v
    · subst huv
      rw [branch_setBranch hlt, hp]
    · rw [branch_setBranch_ne huv]
      exact hf.place_eq u hu hlt

theorem Closed.foldl_reduceNew {ks : List Nat} {found : Reading × Option Nat}
    (h : Closed text r v found) (hr : r.Sound text) (hv : v < r.size) (hst : r.state v = some st)
    (hks : ∀ k ∈ ks, st.Closes k) :
    Closed text r v (ks.foldl (fun found p => found.1.reduceNew v p) found) := by
  induction ks generalizing found with
  | nil => exact h
  | cons k ks ih =>
    rw [List.foldl_cons]
    exact ih (h.reduceNew hr hv hst (hks k List.mem_cons_self)).1
      fun k' hk' => hks k' (List.mem_cons_of_mem _ hk')

theorem closed_stepsAt (h : r.Sound text) (hv : v < r.size) (label : Option Label) :
    Closed text r v
      ((r.stepsAt v label).1.foldl (fun found p => found.1.reduceNew v p) (r, none)) := by
  have hstart := closed_start h v
  unfold stepsAt
  cases hst : r.state v with
  | none => exact hstart
  | some st =>
    exact hstart.foldl_reduceNew h hv hst fun k hk =>
      State.closes_of_mem_possibleSteps (h.state_bounded hst) hk

/-- A branch may be put in the place of an older one. -/
theorem replaceBranch_sound (h : r.Sound text) (hvw : v < w) (hw : w < r.size) :
    (r.replaceBranch w v).Sound text ∧ ∃ b : Branch, b.top = (r.branch w).top
      ∧ b.status = (r.branch w).status ∧ Drops w (r.setBranch v b) (r.replaceBranch w v) := by
  unfold replaceBranch
  rw [if_neg (by simp only [beq_iff_eq]; omega)]
  extract_lets b c
  have hc : r.BranchSound text c := h.branch w
  refine ⟨(h.setBranch hc).removeBranch w, c, rfl, rfl, drops_removeBranch ?_⟩
  rw [size_setBranch]
  exact hw

/-- What closing productions from the branch `first` on has made of `r`. Without a label no branch is
lost, so the first one and the new ones stand where it stood. -/
structure Cleared (text : List Char) (label : Option Label) (first older : Nat) (p : Place)
    (r x : Reading) : Prop where
  sound : x.Sound text
  keeps : Keeps first r x
  front : label = none → Front first older p x

variable {x y : Reading}

theorem Cleared.drops (h : Cleared text label first older p r x) (hd : Drops v x y)
    (hy : y.Sound text) (hv : first ≤ v) (hold : label = none → older ≤ v) :
    Cleared text label first older p r y :=
  ⟨hy, h.keeps.trans hd.keeps hv, fun hl => (h.front hl).drops hd (hold hl)⟩

theorem Cleared.closed {found : Reading × Option Nat} (h : Cleared text label first older p r x)
    (hc : Closed text x v found) (hlt : v < x.size) (hv : label = none → v = first ∨ older ≤ v) :
    Cleared text label first older p r found.1 := by
  refine ⟨hc.sound, h.keeps.trans hc.grows.keeps h.keeps.le_size, fun hl => ?_⟩
  have hf := h.front hl
  have hg := hc.grows
  rw [hf.place_eq v (hv hl) hlt] at hg
  exact hf.grows h.sound hg

theorem Cleared.replaceBranch (h : Cleared text label first older p r x) (hv : first ≤ v)
    (hvw : v < w) (hw : w < x.size) (hold : label = none → older ≤ w) :
    Cleared text label first older p r (x.replaceBranch w v) := by
  obtain ⟨hs, b, htop, hstatus, hd⟩ := replaceBranch_sound h.sound hvw hw
  have hk : Keeps first x (x.setBranch v b) := keeps_setBranch_of_ge h.keeps.le_size hv
  refine ⟨hs, h.keeps.trans (hk.trans hd.keeps (by omega)) (Nat.le_refl _), fun hl => ?_⟩
  have hf := h.front hl
  have hb : b.status = .active := hstatus.trans (hf.active w (Or.inr (hold hl)) hw)
  have hp : (x.frame b.top).place = p := by
    rw [htop]
    exact hf.place_eq w (Or.inr (hold hl)) hw
  exact (hf.setBranch hb hp).drops hd (hold hl)

theorem Cleared.dropUnless (h : Cleared text label first older p r x) (hlt : v < x.size)
    (hv : first ≤ v) : Cleared text label first older p r (closeAll.dropUnless label v x) := by
  unfold closeAll.dropUnless
  split
  · exact h
  · exact h
  · exact h.drops (drops_removeBranch hlt) (h.sound.removeBranch v) hv fun hl => nomatch hl

/-- Closing productions from the branch `first` on keeps the stack sound. -/
theorem closeAll_cleared (label : Option Label) (first older : Nat) (p : Place) (fuel : Nat) :
    ∀ (v round : Nat) (canRead : Bool) (x : Reading),
      Cleared text label first older p r x → first ≤ v → (label = none → v = first ∨ older ≤ v) →
      Cleared text label first older p r (closeAll label first older fuel v round canRead x).1 := by
  induction fuel with
  | zero => intro v round canRead x h _ _; exact h
  | succ fuel ih =>
    intro v round canRead x h hv hat
    rw [closeAll]
    split
    · exact h
    · next hlt =>
      have hlt' : v < x.size := Nat.lt_of_not_le hlt
      split
      · next y hm =>
        obtain ⟨hy, hd⟩ := mergeFirst?_sound h.sound hm
        -- the first branch is older than those that it could be merged into
        have hold : label = none → older ≤ v := by
          intro hl
          obtain ⟨u, hu, -⟩ := List.exists_of_findSome?_eq_some hm
          rw [List.mem_filter, List.mem_range, decide_eq_true_iff] at hu
          omega
        exact ih v _ _ y (h.drops hd hy hv hold) hv hat
      · extract_lets steps found next
        have hclosed : Closed text x v found := closed_stepsAt h.sound hlt' label
        have hfound := h.closed hclosed hlt' hat
        have hsize : x.size ≤ found.1.size := hclosed.grows.keeps.le_size
        have hnext : first ≤ next ∧ (label = none → next = first ∨ older ≤ next) := by
          show first ≤ (if _ then _ else _) ∧ (_ → (if _ then _ else _) = _ ∨ _ ≤ (if _ then _ else _))
          split
          · exact ⟨h.keeps.le_size, fun hl => Or.inr (h.front hl).le_size⟩
          · next hne =>
            refine ⟨Nat.le_succ_of_le hv, fun hl => Or.inr ?_⟩
            rcases hat hl with he | he
            · exact absurd (beq_iff_eq.mpr he) hne
            · exact Nat.le_succ_of_le he
        split
        · exact ih next _ _ _ hfound hnext.1 hnext.2
        · split
          · next w hw =>
            obtain ⟨hle, hw'⟩ := hclosed.new w hw
            split
            · refine ih v _ _ _ (hfound.replaceBranch hv (by omega) hw' fun hl => ?_) hv hat
              exact Nat.le_trans (h.front hl).le_size hle
            · exact ih next _ _ _ (hfound.dropUnless (by omega) hv) hnext.1 hnext.2
          · exact ih next _ _ _ (hfound.dropUnless (by omega) hv) hnext.1 hnext.2

/-! ## Supplying a token -/

/-- The copy of a branch with a token that is not in the text stands where the branch stands. -/
theorem Stands.supply (hs : Stands r v p (some st)) (h : r.Sound text) {t : Terminal} {next : State}
    (hadv : st.advance (.terminal t) = some next) :
    let r1 := r.addBranch { r.branch v with waypoints := none }
    let r2 := r1.push r.size (some (Tree.absent t (r1.place v))) (some next)
    r2.Sound text ∧ Stands r2 r.size p (some next) ∧ Keeps r.size r r2 := by
  intro r1 r2
  have hcopy : { r.branch v with waypoints := none }
      = (⟨(r.branch v).top, (r.branch v).countAtError, .active, none⟩ : Branch) := by
    rw [← hs.active]
  obtain ⟨h1, hs1⟩ : r1.Sound text ∧ Stands r1 r.size (r.place v) (r.state v) := by
    show (r.addBranch _).Sound text ∧ Stands (r.addBranch _) r.size _ _
    rw [hcopy]
    exact h.addBranch_stands (h.branch_top_lt v) _ none
  have hk1 : Keeps r.size r r1 := keeps_addBranch _ _
  have hplace : r1.place v = p := (hk1.place h hs.lt_size).trans hs.place_eq
  rw [hs.place_eq, hs.state_eq] at hs1
  have hfits : Fits text p (some st) (Tree.absent t (r1.place v)) p (some next) := by
    rw [hplace]
    exact fits_advance hadv (Tree.sound_absent (hs.place_eq ▸ h.place_in' v) t) rfl rfl rfl
  obtain ⟨h2, hs2, hk2⟩ := hs1.push h1 hfits fun y hy =>
    Option.some.inj hy ▸ State.Bounded.advance hadv
  exact ⟨h2, hs2, hk1.trans hk2 (Nat.le_refl _)⟩

/-- Supplying a token leaves all branches where they stand. -/
theorem supplyMissing_sound {lookahead : Tree} : ∀ (ts : List Terminal) {r : Reading},
    r.Sound text → Stands r v p (some st) →
    (supplyMissing v st lookahead ts r).1.Sound text
      ∧ Keeps r.size r (supplyMissing v st lookahead ts r).1 := by
  intro ts
  induction ts with
  | nil => intro r h _; exact ⟨h, Keeps.refl (Nat.le_refl _)⟩
  | cons t ts ih =>
    intro r h hs
    rw [supplyMissing]
    extract_lets canRead b r1
    split
    · exact ih h hs
    · next next hnext =>
      have hadv : st.advance (.terminal t) = some next := (Option.ite_none_right_eq_some.mp hnext).2
      split
      · extract_lets r2
        obtain ⟨h2, hs2, hk2⟩ : r2.Sound text ∧ Stands r2 r.size p (some next)
            ∧ Keeps r.size r r2 := hs.supply h hadv
        have hstart : Cleared text (some lookahead.facts.label) r.size r2.size p r2 r2 :=
          ⟨h2, Keeps.refl (Nat.le_of_lt hs2.lt_size), fun hl => nomatch hl⟩
        have hcleared := closeAll_cleared (some lookahead.facts.label) r.size r2.size p
          r2.closingFuel r.size 0 false r2 hstart (Nat.le_refl _) fun hl => nomatch hl
        have hk : Keeps r.size r _ := hk2.trans hcleared.keeps (Nat.le_refl _)
        -- the token is taken if the next one can be read after it, and otherwise given up
        split
        · next x hx =>
          rw [hx] at hcleared hk
          exact ⟨hcleared.sound, hk⟩
        · next x hx =>
          rw [hx] at hcleared hk
          obtain ⟨h3, hk3⟩ := ih hcleared.sound (hk.stands h hs hs.lt_size)
          exact ⟨h3, hk.trans hk3 hk.le_size⟩
      · exact ih h hs

/-! ## Going back -/

/-- The branch `v`, which stood at `q`, has been taken back over an error node, whose parts are
`opened.2`; or it stands where it stood, and there are none. What was under way still is. -/
structure Opens (text : List Char) (r : Reading) (v : Nat) (q : Place) (below : Option State)
    (opened : Reading × List Tree) : Prop where
  sound : opened.1.Sound text
  keeps : Keeps v r opened.1
  trees : ∀ t ∈ opened.2, t.Sound text
  stands : ∃ p x, Stands opened.1 v p x ∧ Tree.Covers p opened.2 q
    ∧ ∀ i, HeldBy i below → 0 < i.dot → HeldBy i x

variable {q : Place} {below goal : Option State}

theorem takeError_opens (h : r.Sound text) (hs : Stands r v q below) :
    Opens text r v q below (r.takeError v) := by
  unfold takeError
  extract_lets isError
  split
  · next l hl =>
    have hmem : l ∈ (r.top v).links := List.mem_of_find?_eq_some hl
    have herror : isError l = true := List.find?_some hl
    have htop := h.branch_top_lt v
    have hbelow := h.below_lt _ htop l hmem
    have hjoin := h.joins _ htop l hmem
    cases ht : l.tree with
    | none => simp [isError, ht] at herror
    | some t =>
      have hlabel : t.facts.label = .error := by simpa [isError, ht] using herror
      rw [ht] at hjoin
      have hfits : Fits text (r.frame l.below).place (r.frame l.below).state t (r.place v)
        (r.state v) := hjoin
      rw [hs.place_eq, hs.state_eq] at hfits
      refine ⟨h.setBranch ⟨hbelow, ?_⟩, ?_, ?_, ?_⟩
      · intro x hx
        rw [hs.active] at hx
        cases hx
      · exact keeps_setBranch_of_ge (Nat.le_of_lt hs.lt_size) (Nat.le_refl _)
      · intro c hc
        exact hfits.sound.child hc
      · refine ⟨(r.frame l.below).place, (r.frame l.below).state, ⟨?_, ?_, ?_, ?_⟩, ?_, ?_⟩
        · rw [size_setBranch]; exact hs.lt_size
        · rw [branch_setBranch hs.lt_size]; exact hs.active
        · show (r.frame ((r.setBranch v _).branch v).top).place = _
          rw [branch_setBranch hs.lt_size]
        · show (r.frame ((r.setBranch v _).branch v).top).state = _
          rw [branch_setBranch hs.lt_size]
        · have hclosed := hfits.closed hlabel
          rw [hfits.before_eq, hfits.stop_eq] at hclosed
          exact hclosed
        · rintro i ⟨st, hst, hi⟩ hpos
          rcases hfits.explains st hst i hi hpos with ⟨-, hheld⟩ | ⟨-, ⟨s, -, hsym⟩, -⟩
          · exact hheld
          · rw [hlabel] at hsym
            cases hsym
  · exact ⟨h, Keeps.refl (Nat.le_of_lt hs.lt_size), by simp,
      ⟨q, below, hs, rfl, fun _ hi _ => hi⟩⟩

/-- States that are the same have the same productions under way. -/
theorem heldBy_of_beq {a b : Option State} (h : (a == b) = true) {i : Item} (hi : HeldBy i b) :
    HeldBy i a := by
  obtain ⟨y, rfl, hy⟩ := hi
  cases a with
  | none => cases h
  | some x =>
    have hitems : (x.items == y.items) = true := h
    refine ⟨x, rfl, ?_⟩
    unfold State.Holds
    rw [beq_iff_eq.mp hitems]
    exact hy

theorem pushError_stands {trees : List Tree} {a : Option State} (goal : Option State)
    (h : r.Sound text) (hs : Stands r v p a) (hcovers : Tree.Covers p trees q)
    (hsound : ∀ t ∈ trees, t.Sound text) (hbounded : ∀ x, goal = some x → x.Bounded)
    (hheld : ∀ st, goal = some st → ∀ i, st.Holds i → 0 < i.dot → HeldBy i a) :
    (r.pushError v trees goal).Sound text ∧ Keeps v r (r.pushError v trees goal)
      ∧ (r.pushError v trees goal).size = r.size := by
  have happ := splitTrailing_append trees
  unfold pushError
  extract_lets split r1
  have hsplit : split.1 ++ split.2 = trees := happ
  rw [← hsplit, Tree.covers_append] at hcovers
  obtain ⟨q', hinner, htrail⟩ := hcovers
  have hsound1 : ∀ t ∈ split.1, t.Sound text := fun t ht =>
    hsound t (hsplit ▸ List.mem_append_left _ ht)
  have hsound2 : ∀ t ∈ split.2, t.Sound text := fun t ht =>
    hsound t (hsplit ▸ List.mem_append_right _ ht)
  have hextra : ∀ t ∈ split.2, t.facts.extra = true := fun t => extra_of_mem_splitTrailing
  obtain ⟨h1, hk1, hsize, x, hs1, hheld1⟩ : r1.Sound text ∧ Keeps v r r1 ∧ r1.size = r.size
      ∧ ∃ x, Stands r1 v q' x
        ∧ ∀ st, goal = some st → ∀ i, st.Holds i → 0 < i.dot → HeldBy i x := by
    by_cases hempty : split.1.isEmpty = true
    · -- nothing but comments: they are pushed on the branch as it is
      have hr1 : r1 = r := if_pos hempty
      rw [List.isEmpty_iff.mp hempty] at hinner
      have hpq : p = q' := hinner
      rw [hr1]
      exact ⟨h, Keeps.refl (Nat.le_of_lt hs.lt_size), rfl, a, hpq ▸ hs, hheld⟩
    · have hr1 : r1 = r.push v (some (Tree.build .error none (r.place v) split.1).asExtra) goal :=
        if_neg hempty
      rw [← hs.place_eq] at hinner
      have hfault := Tree.sound_extra_error (h.place_in' v) hinner hsound1
      have hfits := fits_extra hfault (Tree.extra_asExtra _)
        ((Tree.before_asExtra _).trans ((Tree.before_build hinner).trans hs.place_eq)) hheld
      rw [Tree.stop_asExtra, Tree.stop_build hinner] at hfits
      obtain ⟨h1, hs1, hk1⟩ := hs.push h hfits hbounded
      rw [hr1]
      exact ⟨h1, hk1, size_push _ _ _ _, goal, hs1, fun st hst i hi _ => ⟨st, hst, hi⟩⟩
  obtain ⟨h2, -, hk2⟩ := hs1.foldl_push h1 htrail hsound2 hextra hbounded hheld1
  refine ⟨h2, hk1.trans hk2 (Nat.le_refl _), ?_⟩
  rw [size_foldl_push, hsize]

theorem limitProgress_sound (h : r.Sound text) (hv : v ≤ r.size) :
    (r.limitProgress v).Sound text ∧ Keeps v r (r.limitProgress v) :=
  ⟨h.setBranch (h.branch v), keeps_setBranch_of_ge hv (Nat.le_refl _)⟩

theorem returnOn_sound (h : r.Sound text) {depth : Nat} {s : Nat × List (List Tree)}
    (hs : s ∈ r.slices v depth) (hgoal : ((r.frame s.1).state == goal) = true)
    (hx : x.Sound text) (hkeeps : Keeps r.size r x) :
    (returnOn v goal x s).Sound text ∧ Keeps x.size x (returnOn v goal x s) := by
  obtain ⟨node, alternatives⟩ := s
  have hway := way_headD h hs
  have hbounded : ∀ y, goal = some y → y.Bounded := fun y hy i hi => by
    obtain ⟨z, hz, hheld⟩ := heldBy_of_beq hgoal ⟨y, hy, hi⟩
    exact h.bounded node hway.node_lt z hz i hheld
  have hnode : node < x.frames.size := Nat.lt_of_lt_of_le hway.node_lt hkeeps.frames_le
  obtain ⟨h1, hs1⟩ := hx.addBranch_stands hnode (x.branch v).countAtError none
  rw [hkeeps.place_eq node hway.node_lt, hkeeps.state_eq node hway.node_lt] at hs1
  have hopens := takeError_opens h1 hs1
  obtain ⟨p, a, hs2, hcovers, hheld⟩ := hopens.stands
  obtain ⟨h3, hk3, hsize3⟩ := pushError_stands goal hopens.sound hs2
    (hcovers.append hway.covers)
    (fun t ht => (List.mem_append.mp ht).elim (hopens.trees t) (hway.sound t)) hbounded
    fun st hst i hi hpos => hheld i (heldBy_of_beq hgoal ⟨st, hst, hi⟩) hpos
  have hle : x.size ≤ _ := Nat.le_of_lt (hsize3 ▸ hs2.lt_size)
  obtain ⟨h4, hk4⟩ := limitProgress_sound h3 hle
  refine ⟨h4, ?_⟩
  exact ((keeps_addBranch x _).trans hopens.keeps (Nat.le_refl _)).trans
    (hk3.trans hk4 (Nat.le_refl _)) (Nat.le_refl _)

theorem foldl_returnOn_sound (h : r.Sound text) {depth : Nat} :
    ∀ (targets : List (Nat × List (List Tree))) (y : Reading),
      (∀ s ∈ targets, s ∈ r.slices v depth ∧ ((r.frame s.1).state == goal) = true) →
      y.Sound text → Keeps r.size r y →
      (targets.foldl (returnOn v goal) y).Sound text
        ∧ Keeps r.size r (targets.foldl (returnOn v goal) y) := by
  intro targets
  induction targets with
  | nil => intro y _ hy hk; exact ⟨hy, hk⟩
  | cons s targets ih =>
    intro y hmem hy hk
    obtain ⟨hs, hgoal⟩ := hmem s List.mem_cons_self
    obtain ⟨hy', hk'⟩ := returnOn_sound h hs hgoal hy hk
    exact ih _ (fun s' hs' => hmem s' (List.mem_cons_of_mem _ hs')) hy' (hk.trans hk' hk.le_size)

theorem returnTo_sound (h : r.Sound text) {depth : Nat} (hx : r.returnTo v depth goal = some x) :
    x.Sound text ∧ Keeps r.size r x := by
  unfold returnTo at hx
  split at hx
  · cases hx
  · cases hx
    exact foldl_returnOn_sound h _ r (fun s hs => List.mem_filter.mp hs) h
      (Keeps.refl (Nat.le_refl _))

theorem tryWaypoints_sound {lookahead : Tree} (h : r.Sound text) (ws : List Waypoint)
    (hx : r.tryWaypoints v lookahead ws = some x) : x.Sound text ∧ Keeps r.size r x := by
  induction ws with
  | nil => cases hx
  | cons w ws ih =>
    rw [tryWaypoints] at hx
    split at hx
    · exact ih hx
    · extract_lets fits depth at hx
      split at hx
      · exact ih hx
      · split at hx
        · cases hx
        · split at hx
          · next hy =>
            cases hx
            exact returnTo_sound h hy
          · exact ih hx

/-! ## Finishing -/

/-- The last tree takes the comments around it in. -/
theorem spliceLast?_root {trees : List Tree} {root : Tree} (hp : p.In text)
    (hcovers : Tree.Covers p trees q) (hsound : ∀ t ∈ trees, t.Sound text)
    (hfile : ∀ t, (trees.filter fun t => !t.facts.extra).getLast? = some t →
      t.IsFile ∧ Tree.Covers t.facts.before t.children t.facts.stop)
    (h : Tree.spliceLast? trees = some root) : root.Root text := by
  unfold Tree.spliceLast? at h
  extract_lets split at h
  obtain ⟨t, ht, rfl⟩ := Option.map_eq_some_iff.mp h
  obtain ⟨hisFile, hclosed⟩ := hfile t (getLast?_splitTrailing trees ▸ ht)
  obtain ⟨front, hfront⟩ := List.getLast?_eq_some_iff.mp ht
  have happ : split.1 ++ split.2 = trees := splitTrailing_append trees
  rw [hfront] at happ ⊢
  rw [List.dropLast_concat]
  rw [← happ] at hcovers hsound
  obtain ⟨stop, hbefore, htrail⟩ := Tree.covers_append.mp hcovers
  obtain ⟨start, hbefore, hstart, hstop⟩ := Tree.covers_append.mp hbefore
  have hstop : t.facts.stop = stop := hstop
  rw [hstart, hstop] at hclosed
  have hcs : Tree.Covers p (front ++ t.children ++ split.2) q :=
    (hbefore.append hclosed).append htrail
  have hs : ∀ c ∈ front ++ t.children ++ split.2, c.Sound text := by
    intro c hc
    rw [List.append_assoc, List.mem_append, List.mem_append] at hc
    rcases hc with hc | hc | hc
    · exact hsound c (by simp [hc])
    · exact (hsound t (by simp)).child hc
    · exact hsound c (by simp [hc])
  -- where there is nothing else the tree stands at the beginning
  have hbuild : Tree.build t.facts.label t.facts.production t.facts.before
      (front ++ t.children ++ split.2)
      = Tree.build t.facts.label t.facts.production p (front ++ t.children ++ split.2) := by
    cases hfr : front with
    | nil =>
      rw [hfr] at hbefore
      have hpq : p = start := hbefore
      rw [hstart, hpq]
    | cons c cs => rfl
  rw [hbuild]
  exact ⟨Tree.placed_build hp hcs hs, (Tree.filled_build hcs).covers, hs, hisFile⟩

/-- What is kept on the way down holds of every way to the bottom. -/
theorem allTrees_induction {P : Path → Prop} (hstart : P ⟨(r.branch v).top, [], 0⟩)
    (hfollow : ∀ p, P p → ∀ l ∈ (r.frame p.node).links, P (p.follow l)) {trees : List Tree}
    (h : trees ∈ r.allTrees v) : ∃ p, P p ∧ p.trees = trees ∧ (r.frame p.node).links = [] := by
  have hwalk : ∀ trees ∈ r.allTrees v, ∃ p, P p ∧ p.trees = trees ∧ (r.frame p.node).links = [] := by
    refine walk_induction (P := P)
      (Q := fun (acc : List (List Tree)) => ∀ trees ∈ acc,
        ∃ p, P p ∧ p.trees = trees ∧ (r.frame p.node).links = [])
      ?_ ?_ _ _ _ ?_ ?_
    · intro acc p hacc hp trees ht
      split at ht
      · next hnil =>
        rcases List.mem_append.mp ht with ht | ht
        · exact hacc trees ht
        · exact ⟨p, hp, (List.mem_singleton.mp ht).symm, List.isEmpty_iff.mp hnil⟩
      · exact hacc trees ht
    · rintro p ⟨hp, -⟩
      exact hfollow p hp
    · intro p hp
      rw [List.mem_singleton.mp hp]
      exact hstart
    · intro trees ht
      cases ht
  exact hwalk trees h

/-- The tree is complete: a file that is made of its children. -/
def Complete (t : Tree) : Prop :=
  t.IsFile ∧ Tree.Covers t.facts.before t.children t.facts.stop

/-- Below the frames that are marked there are comments and errors, and then a file. -/
def OnFile (r : Reading) (marked : Nat → Prop) : Prop :=
  ∀ n, marked n → ∀ l ∈ (r.frame n).links, ∃ t, l.tree = some t
    ∧ ((t.facts.extra = true ∧ marked l.below) ∨ (t.facts.extra = false ∧ Complete t))

/-- On every way down from a marked frame the last tree is a file. -/
theorem allTrees_complete {marked : Nat → Prop} (h : r.Sound text) (hfile : r.OnFile marked)
    (htop : marked (r.branch v).top) {trees : List Tree} (ht : trees ∈ r.allTrees v) :
    (∃ p, p.In text ∧ Tree.Covers p trees (r.place v)) ∧ (∀ t ∈ trees, t.Sound text)
      ∧ ∀ t, (trees.filter fun t => !t.facts.extra).getLast? = some t → Complete t := by
  have hend := allTrees_induction
    (P := fun p => Way text r (r.place v) p
      ∧ ((marked p.node ∧ p.trees.filter (fun t => !t.facts.extra) = [])
        ∨ ∃ t, (p.trees.filter fun t => !t.facts.extra).getLast? = some t ∧ Complete t))
    ⟨way_start h v, Or.inl ⟨htop, rfl⟩⟩ ?_ ht
  · obtain ⟨p, ⟨hway, hlast⟩, rfl, -⟩ := hend
    refine ⟨⟨_, h.place_in _ hway.node_lt, hway.covers⟩, hway.sound, ?_⟩
    intro t ht
    rcases hlast with ⟨-, hnil⟩ | ⟨t', ht', hc⟩
    · rw [hnil] at ht
      cases ht
    · rw [ht] at ht'
      exact Option.some.inj ht' ▸ hc
  · rintro p ⟨hway, hlast⟩ l hl
    refine ⟨hway.follow h hl, ?_⟩
    rcases hlast with ⟨hmark, hnil⟩ | ⟨t', ht', hc⟩
    · obtain ⟨t, hlt, ⟨hx, hbelow⟩ | ⟨hx, hc⟩⟩ := hfile _ hmark l hl
      · refine Or.inl ⟨?_, ?_⟩ <;> simp [Path.follow, hlt, hx, hbelow, hnil]
      · refine Or.inr ⟨t, ?_, hc⟩
        simp [Path.follow, hlt, hx, hnil]
    · refine Or.inr ⟨t', ?_, hc⟩
      cases hlt : l.tree with
      | none => simpa [Path.follow, hlt] using ht'
      | some t =>
        simp only [Path.follow, hlt]
        rw [List.filter_cons]
        split
        · rw [List.getLast?_cons, ht']
          rfl
        · exact ht'

theorem foldl_betterTree {roots : List Tree} {best : Option Tree} {t : Tree}
    (h : roots.foldl betterTree best = some t) : best = some t ∨ t ∈ roots := by
  induction roots generalizing best with
  | nil => exact Or.inl h
  | cons root roots ih =>
    rcases ih h with h | h
    · have hcases : betterTree best root = some root ∨ betterTree best root = best := by
        unfold betterTree
        split
        · exact Or.inl rfl
        · split
          · exact Or.inl rfl
          · exact Or.inr rfl
      rcases hcases with hc | hc
      · rw [hc] at h
        cases h
        exact Or.inr List.mem_cons_self
      · exact Or.inl (hc ▸ h)
    · exact Or.inr (List.mem_cons_of_mem _ h)

theorem Sound.setFinished (h : r.Sound text) {best : Option Tree} {count : Nat}
    (hbest : ∀ t, best = some t → t.Root text) :
    Sound text { r with finished := best, finishedCount := count } :=
  ⟨h.nonempty, h.place_in, h.bounded, h.below_lt, h.joins, h.top_lt, h.paused, hbest⟩

/-- The end of the text is put on top of marked frames. -/
theorem OnFile.push {marked : Nat → Prop} {t : Tree} (hfile : r.OnFile marked)
    (goal : Option State) (h : r.Sound text) (htop : marked (r.branch v).top)
    (hx : t.facts.extra = true) :
    (r.push v (some t) goal).OnFile fun n =>
      n = r.frames.size ∨ (n < r.frames.size ∧ marked n) := by
  rintro n (rfl | ⟨hn, hmark⟩) l hl
  · rw [frame_push, links_pushed, List.mem_singleton] at hl
    subst hl
    exact ⟨t, rfl, Or.inl ⟨hx, Or.inr ⟨h.branch_top_lt v, htop⟩⟩⟩
  · rw [frame_push_lt hn] at hl
    obtain ⟨t', ht', hor⟩ := hfile n hmark l hl
    refine ⟨t', ht', hor.imp_left ?_⟩
    rintro ⟨hx', hbelow⟩
    exact ⟨hx', Or.inr ⟨h.below_lt n hn l hl, hbelow⟩⟩

/-- The end of the text is put on top of a branch. -/
theorem Stands.push_end {lookahead : Tree} (hs : Stands r v p below) (h : r.Sound text)
    (ht : TokenAt text p lookahead) (hx : lookahead.facts.extra = true) :
    (r.push v (some lookahead) (some State.start)).Sound text := by
  have hfits : Fits text p below lookahead lookahead.facts.stop (some State.start) :=
    fits_extra ht.sound hx ht.before_eq fun st hst i hi hpos => by
      cases hst
      exact absurd (State.dot_of_holds_start hi) (Nat.ne_of_gt hpos)
  exact (hs.push h hfits fun y hy => Option.some.inj hy ▸ State.bounded_start).1

/-- A branch that stands on a file at the end of the text is finished. -/
theorem accept_sound {lookahead : Tree} (marked : Nat → Prop) (h : r.Sound text)
    (hs : Stands r v p below) (ht : TokenAt text p lookahead)
    (hx : lookahead.facts.extra = true) (hfile : r.OnFile marked)
    (htop : marked (r.branch v).top) : (r.accept v lookahead).Sound text := by
  have h1 := hs.push_end h ht hx
  have hfile1 := hfile.push (some State.start) h htop hx
  unfold accept
  extract_lets r1 roots finished
  have hroots : ∀ t ∈ roots, t.Root text := by
    intro root hroot
    obtain ⟨trees, htrees, hsplice⟩ := List.mem_filterMap.mp hroot
    obtain ⟨⟨q, hq, hcovers⟩, hsound, hlast⟩ := allTrees_complete h1 hfile1
      (Or.inl (top_push hs.lt_size)) htrees
    exact spliceLast?_root hq hcovers hsound hlast hsplice
  have hfinished : ∀ t, finished = some t → t.Root text := by
    intro t hfin
    rcases foldl_betterTree hfin with hold | hnew
    · exact h1.root t hold
    · exact hroots t hnew
  exact (h1.setFinished hfinished).setStatus fun _ hp => nomatch hp

/-! ## Being lost -/

/-- A lost reader may read anything as a stretch that is skipped. -/
theorem Stands.push_skipped (hs : Stands r v p below) (h : r.Sound text) {trees : List Tree}
    (hcovers : Tree.Covers p trees q) (hsound : ∀ t ∈ trees, t.Sound text) :
    (r.push v (some (Tree.build .skipped none (r.place v) trees)) none).Sound text := by
  have hp : p.In text := hs.place_eq ▸ h.place_in' v
  rw [hs.place_eq]
  have hfits : Fits text p below (Tree.build .skipped none p trees) q none :=
    { sound := Tree.sound_fault rfl hp hcovers hsound
      before_eq := Tree.before_build hcovers
      stop_eq := Tree.stop_build hcovers
      closed := fun hl => nomatch hl
      explains := fun st hst => nomatch hst }
  exact (hs.push h hfits fun x hx => nomatch hx).1

/-- A lost reader puts an error on what it has read. -/
theorem Stands.push_failed (hs : Stands r v p below) (h : r.Sound text) :
    (r.push v (some (Tree.build .error none (r.place v) [])) (some State.start)).Sound text
      ∧ Stands (r.push v (some (Tree.build .error none (r.place v) [])) (some State.start)) v p
        (some State.start) := by
  have hp : p.In text := hs.place_eq ▸ h.place_in' v
  rw [hs.place_eq]
  have hfits : Fits text p below (Tree.build .error none p []) p (some State.start) :=
    { sound := Tree.sound_fault rfl hp rfl (by simp)
      before_eq := rfl
      stop_eq := rfl
      closed := fun _ => rfl
      explains := fun st hst i hi hpos => by
        cases hst
        exact absurd (State.dot_of_holds_start hi) (Nat.ne_of_gt hpos) }
  obtain ⟨h1, hs1, -⟩ := hs.push h hfits fun y hy => Option.some.inj hy ▸ State.bounded_start
  exact ⟨h1, hs1⟩

/-- At the end of the text a lost reader makes an error node of the whole. -/
theorem accept_lost {lookahead : Tree} (h : r.Sound text) (hs : Stands r v p below)
    (ht : TokenAt text p lookahead) (hx : lookahead.facts.extra = true) :
    ((r.push v (some (Tree.build .error none (r.place v) [])) (some State.start)).accept v
      lookahead).Sound text := by
  obtain ⟨h1, hs1⟩ := hs.push_failed h
  refine accept_sound (fun n => n = r.frames.size) h1 hs1 ht hx ?_
    (top_push hs.lt_size)
  rintro n rfl l hl
  rw [frame_push, links_pushed, List.mem_singleton] at hl
  subst hl
  exact ⟨_, rfl, Or.inr ⟨rfl, Or.inl ⟨rfl, rfl⟩, rfl⟩⟩

/-- The branch `v` is moved to another frame. -/
theorem Sound.moveTo (h : r.Sound text) (hv : v < r.size) {node : Nat} {b : Branch}
    (hnode : node < r.frames.size) :
    (r.setBranch v { b with top := node, status := .active }).Sound text
      ∧ Stands (r.setBranch v { b with top := node, status := .active }) v (r.frame node).place
        (r.frame node).state := by
  refine ⟨h.setBranch ⟨hnode, fun t ht => nomatch ht⟩, ?_, ?_, ?_, ?_⟩
  · rw [size_setBranch]; exact hv
  · rw [branch_setBranch hv]
  · show (r.frame ((r.setBranch v _).branch v).top).place = _
    rw [branch_setBranch hv]
  · show (r.frame ((r.setBranch v _).branch v).top).state = _
    rw [branch_setBranch hv]

theorem recover_sound {lookahead : Tree} (h : r.Sound text) (hs : Stands r v p below)
    (ht : TokenAt text p lookahead) : (r.recover v lookahead).Sound text := by
  unfold recover
  extract_lets cost progress back x r1 skipped
  obtain ⟨hx, hk⟩ : x.Sound text ∧ Keeps r.size r x := by
    show (back.getD r).Sound text ∧ Keeps r.size r (back.getD r)
    cases hback : back with
    | none => exact ⟨h, Keeps.refl (Nat.le_refl _)⟩
    | some y => exact tryWaypoints_sound h _ (Option.ite_none_left_eq_some.mp hback).2
  have hsx := hk.stands h hs hs.lt_size
  split
  · next hend =>
    refine accept_lost hx hsx ht ?_
    rw [ht.extra_eq]
    exact hend
  · split
    · exact hx.setStatus fun _ hp => nomatch hp
    · split
      · exact hx.setStatus fun _ hp => nomatch hp
      · obtain ⟨htoken, hbefore⟩ := ht.commentAsExtra
        have hcovers : Tree.Covers p [lookahead.commentAsExtra] lookahead.commentAsExtra.facts.stop :=
          ⟨hbefore, rfl⟩
        have hsound : ∀ t ∈ [lookahead.commentAsExtra], t.Sound text := fun t hmem =>
          List.mem_singleton.mp hmem ▸ htoken
        have hskipped : skipped.Sound text
            ∧ Tree.Covers p [skipped] lookahead.commentAsExtra.facts.stop := by
          show (Tree.build .skipped none (x.place v) _).Sound text
            ∧ Tree.Covers p [Tree.build .skipped none (x.place v) _] _
          rw [hsx.place_eq]
          refine ⟨Tree.sound_fault rfl (hs.place_eq ▸ h.place_in' v) hcovers hsound, ?_⟩
          exact ⟨Tree.before_build hcovers, Tree.stop_build hcovers⟩
        -- what was skipped before on this branch goes into the same stretch
        split
        · exact hsx.push_skipped hx hcovers hsound
        · next node alternatives hslice =>
          have hway := way_headD hx
            (List.mem_of_head? (Option.ite_none_left_eq_some.mp hslice).2)
          obtain ⟨h2, hs2⟩ := hx.moveTo (b := x.branch v) hsx.lt_size hway.node_lt
          have hcov := hway.covers
          rw [hsx.place_eq] at hcov
          refine hs2.push_skipped h2 (hcov.append hskipped.2) fun t hmem => ?_
          rcases List.mem_append.mp hmem with hmem | hmem
          · exact hway.sound t hmem
          · exact List.mem_singleton.mp hmem ▸ hskipped.1

/-- Losing the state does not move any branch. -/
theorem Stands.push_lost (hs : Stands r v p below) (h : r.Sound text) (w : Nat) :
    ∃ x, Stands (r.push w none none) v p x := by
  refine ⟨_, ?_, ?_, ?_, rfl⟩
  · rw [size_push]; exact hs.lt_size
  · rw [status_push]; exact hs.active
  · by_cases hv : v = w
    · subst hv
      rw [place_push hs.lt_size]
      exact hs.place_eq
    · show ((r.push w none none).frame ((r.push w none none).branch v).top).place = p
      rw [branch_push_ne hv, frame_push_lt (h.branch_top_lt v)]
      exact hs.place_eq

theorem trySupply_sound (lookahead : Tree) {tried : Reading × Bool} {x : Option State}
    (h : tried.1.Sound text) (hw : Stands tried.1 w p x) :
    (trySupply lookahead tried w).1.Sound text
      ∧ Keeps tried.1.size tried.1 (trySupply lookahead tried w).1 := by
  unfold trySupply
  split
  · next st _ hst =>
    rw [hw.state_eq] at hst
    exact supplyMissing_sound _ h (hst ▸ hw)
  · exact ⟨h, Keeps.refl (Nat.le_refl _)⟩

/-- Losing the states of branches leaves all of them where they stand. -/
theorem foldl_loseState_sound {lookahead : Tree} {ws : List Nat} (tried : Reading × Bool)
    (h : tried.1.Sound text) (hws : ∀ w ∈ ws, ∃ x, Stands tried.1 w p x)
    (hv : ∃ x, Stands tried.1 v p x) :
    (ws.foldl (loseState lookahead) tried).1.Sound text
      ∧ ∃ x, Stands (ws.foldl (loseState lookahead) tried).1 v p x := by
  induction ws generalizing tried with
  | nil => exact ⟨h, hv⟩
  | cons w ws ih =>
    obtain ⟨_, hw⟩ := hws w List.mem_cons_self
    obtain ⟨h1, hk⟩ := trySupply_sound lookahead h hw
    have hstep : ∀ u, (∃ x, Stands tried.1 u p x) →
        ∃ x, Stands (loseState lookahead tried w).1 u p x := by
      rintro u ⟨x, hu⟩
      exact (hk.stands h hu hu.lt_size).push_lost h1 w
    rw [List.foldl_cons]
    exact ih _ (h1.push_lost w) (fun u hu => hstep u (hws u (List.mem_cons_of_mem _ hu)))
      (hstep v hv)

/-- Merging later branches into an earlier one leaves that where it stands. -/
theorem foldl_merge?_sound {ws : List Nat} (hlt : v < older) (h : r.Sound text)
    (hv : ∃ x, Stands r v p x) :
    (ws.foldl (fun r _ => (r.merge? v older).getD r) r).Sound text
      ∧ ∃ x, Stands (ws.foldl (fun r _ => (r.merge? v older).getD r) r) v p x := by
  induction ws generalizing r with
  | nil => exact ⟨h, hv⟩
  | cons w ws ih =>
    rw [List.foldl_cons]
    cases hm : r.merge? v older with
    | none => exact ih h hv
    | some y =>
      obtain ⟨hy, hd⟩ := merge?_sound h hm
      obtain ⟨x, hs⟩ := hv
      exact ih hy ⟨x, hd.keeps.stands h hs hlt⟩

theorem front_start (hs : Stands r v p below) : Front v r.size p r where
  first_lt := hs.lt_size
  le_size := Nat.le_refl _
  active := fun u hu hlt => by
    obtain rfl : u = v := by omega
    exact hs.active
  place_eq := fun u hu hlt => by
    obtain rfl : u = v := by omega
    exact hs.place_eq

/-- Closing productions without a lookahead leaves all that comes of a branch where that stands. -/
theorem Stands.closeAll_front (hs : Stands r v p below) (h : r.Sound text) (fuel : Nat) :
    (closeAll none v r.size fuel v 0 false r).1.Sound text
      ∧ Front v r.size p (closeAll none v r.size fuel v 0 false r).1 := by
  have hstart : Cleared text none v r.size p r r :=
    ⟨h, Keeps.refl (Nat.le_of_lt hs.lt_size), fun _ => front_start hs⟩
  have hcleared := closeAll_cleared none v r.size p fuel v 0 false r hstart (Nat.le_refl _)
    fun _ => Or.inl rfl
  exact ⟨hcleared.sound, hcleared.front rfl⟩

/-- The branch itself and those that were made while productions were closed. -/
theorem Front.stands (h : Front v older p r)
    (hw : w ∈ v :: (List.range r.size).filter fun w => decide (older ≤ w)) :
    w < r.size ∧ (w = v ∨ older ≤ w) ∧ ∃ x, Stands r w p x := by
  have hat : w < r.size ∧ (w = v ∨ older ≤ w) := by
    rcases List.mem_cons.mp hw with rfl | hw
    · exact ⟨Nat.lt_of_lt_of_le h.first_lt h.le_size, Or.inl rfl⟩
    · rw [List.mem_filter, List.mem_range, decide_eq_true_iff] at hw
      exact ⟨hw.1, Or.inr hw.2⟩
  exact ⟨hat.1, hat.2, _, hat.1, h.active w hat.2 hat.1, h.place_eq w hat.2 hat.1, rfl⟩

theorem handleError_sound {lookahead : Tree} (h : r.Sound text) (hs : Stands r v p below)
    (ht : TokenAt text p lookahead) : (r.handleError v lookahead).Sound text := by
  unfold handleError
  extract_lets older r1 closed r2 r3 b r4
  obtain ⟨h1, hfront⟩ : r1.Sound text ∧ Front v older p r1 := hs.closeAll_front h _
  obtain ⟨h2, hv2⟩ : r2.Sound text ∧ ∃ x, Stands r2 v p x :=
    foldl_loseState_sound (r1, false) h1 (fun w hw => (hfront.stands hw).2.2)
      (hfront.stands List.mem_cons_self).2.2
  obtain ⟨h3, x, hv3⟩ : r3.Sound text ∧ ∃ x, Stands r3 v p x :=
    foldl_merge?_sound hfront.first_lt h2 hv2
  exact recover_sound (h3.setBranch (h3.branch v)) (hv3.setBranch rfl rfl) ht

end SpanIndex.Syntax.Reading
