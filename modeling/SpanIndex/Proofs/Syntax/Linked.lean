import SpanIndex.Proofs.Syntax.Stack

/-!
# Properties of links

Some things are true of every link of a reading, like the soundness of its tree, or of every link that can
still be met from a branch that goes on. If such a property only looks at the states and costs of the two
frames, then it is kept when branches are merged: links are only moved to frames that are similar, and a
frame keeps its state and its cost as long as it is there.
-/

namespace SpanIndex.Syntax

/-- States are the same if their items are. -/
theorem beq_state_iff {a b : Option State} :
    (a == b) = true ↔ a.map State.items = b.map State.items := by
  cases a with
  | none => cases b <;> simp
  | some x =>
    cases b with
    | none => simp
    | some y =>
      rw [Option.map_some, Option.map_some, Option.some.injEq]
      exact beq_iff_eq (a := x.items) (b := y.items)

namespace Reading

/-- A property of the link between an upper frame, a lower one and the tree between them that depends on
their states and costs only, so that it also holds of a frame that is similar to the upper one. -/
structure Stable (J : Frame → Frame → Option Tree → Prop) : Prop where
  congr : ∀ {f f' g g' : Frame} {t : Option Tree}, J f g t → f'.state = f.state → f'.cost = f.cost →
    g'.state = g.state → g'.cost = g.cost → J f' g' t
  similar : ∀ {f f' g : Frame} {t : Option Tree}, J f g t → similar f' f = true → J f' g t

/-- Every link of a live frame leads to a live one, and has the property. -/
def Linked (live : Nat → Prop) (J : Frame → Frame → Option Tree → Prop) (r : Reading) : Prop :=
  ∀ n, n < r.frames.size → live n → ∀ l ∈ (r.frame n).links,
    l.below < r.frames.size ∧ live l.below ∧ J (r.frame n) (r.frame l.below) l.tree

variable {live : Nat → Prop} {J : Frame → Frame → Option Tree → Prop} {text : List Char}
  {r r' r'' : Reading} {n v w u : Nat} {f : Frame} {t : Option Tree} {st : Option State}

theorem Linked.of_frames (h : Linked live J r) (hf : r'.frames = r.frames) : Linked live J r' := by
  have hframe : ∀ n, r'.frame n = r.frame n := fun n => by unfold frame; rw [hf]
  intro n hn hlive l hl
  rw [hframe] at hl ⊢
  rw [hframe, hf]
  exact h n (hf ▸ hn) hlive l hl

/-! ## Pushing -/

theorem push_eq (r : Reading) (v : Nat) (t : Option Tree) (st : Option State) :
    r.push v t st = { r with frames := r.frames.push (r.pushed v t st) }.setBranch v
      { r.branch v with
        top := r.frames.size
        countAtError := if t.isNone then (r.pushed v t st).count else (r.branch v).countAtError } := by
  cases t <;> rfl

theorem Linked.push (h : Linked live J r) (htop : (r.branch v).top < r.frames.size)
    (hj : live r.frames.size → live (r.branch v).top ∧ J (r.pushed v t st) (r.top v) t) :
    Linked live J (r.push v t st) := by
  have hsize : (r.push v t st).frames.size = r.frames.size + 1 := by
    rw [frames_push, Array.size_push]
  intro n hn hlive l hl
  rcases Nat.lt_or_eq_of_le (Nat.lt_succ_iff.mp (hsize ▸ hn)) with hn | rfl
  · rw [frame_push_lt hn] at hl ⊢
    obtain ⟨hlt, hlink⟩ := h n hn hlive l hl
    rw [frame_push_lt hlt]
    exact ⟨by omega, hlink⟩
  · rw [frame_push] at hl ⊢
    rw [links_pushed, List.mem_singleton] at hl
    subst hl
    rw [frame_push_lt htop]
    exact ⟨Nat.lt_of_lt_of_le htop (by omega), hj hlive⟩

/-! ## Merging -/

/-- Only links, counts and weights differ, and no frame has lost all its links. -/
structure Rewired (r r' : Reading) : Prop extends Relinked r r' where
  cost_eq : ∀ n, (r'.frame n).cost = (r.frame n).cost
  links_nil : ∀ n, (r'.frame n).links = [] → (r.frame n).links = []
  furthest_eq : r'.furthest = r.furthest

theorem Rewired.refl (r : Reading) : Rewired r r :=
  ⟨Relinked.refl r, fun _ => rfl, fun _ h => h, rfl⟩

theorem Rewired.trans (h : Rewired r r') (h' : Rewired r' r'') : Rewired r r'' where
  toRelinked := h.toRelinked.trans h'.toRelinked
  cost_eq := fun n => (h'.cost_eq n).trans (h.cost_eq n)
  links_nil := fun n hn => h.links_nil n (h'.links_nil n hn)
  furthest_eq := h'.furthest_eq.trans h.furthest_eq

theorem rewired_setFrame (hn : n < r.frames.size) (hp : f.place = (r.frame n).place)
    (hs : f.state = (r.frame n).state) (hc : f.cost = (r.frame n).cost)
    (hl : f.links = [] → (r.frame n).links = []) : Rewired r (r.setFrame n f) where
  toRelinked := relinked_setFrame hn hp hs
  cost_eq := fun m => by
    by_cases h : m = n
    · rw [h, frame_setFrame hn, hc]
    · rw [frame_setFrame_ne h]
  links_nil := fun m => by
    by_cases h : m = n
    · rw [h, frame_setFrame hn]
      exact hl
    · rw [frame_setFrame_ne h]
      exact id
  furthest_eq := rfl

/-- A frame gets links that have the property too. -/
theorem Linked.setFrame (hJ : Stable J) (h : Linked live J r) (hn : n < r.frames.size)
    (hs : f.state = (r.frame n).state) (hc : f.cost = (r.frame n).cost)
    (hlinks : ∀ l ∈ f.links,
      l.below < r.frames.size ∧ live l.below ∧ J (r.frame n) (r.frame l.below) l.tree) :
    Linked live J (r.setFrame n f) := by
  have hsize : (r.setFrame n f).frames.size = r.frames.size := Array.size_setIfInBounds
  have hsame : ∀ m, ((r.setFrame n f).frame m).state = (r.frame m).state
      ∧ ((r.setFrame n f).frame m).cost = (r.frame m).cost := by
    intro m
    by_cases he : m = n
    · rw [he, frame_setFrame hn]
      exact ⟨hs, hc⟩
    · rw [frame_setFrame_ne he]
      exact ⟨rfl, rfl⟩
  intro m hm hlive l hl
  have hold : l.below < r.frames.size ∧ live l.below ∧ J (r.frame m) (r.frame l.below) l.tree := by
    by_cases he : m = n
    · rw [he, frame_setFrame hn] at hl
      exact he ▸ hlinks l hl
    · rw [frame_setFrame_ne he] at hl
      exact h m (hsize ▸ hm) hlive l hl
  exact ⟨hsize ▸ hold.1, hold.2.1,
    hJ.congr hold.2.2 (hsame m).1 (hsame m).2 (hsame _).1 (hsame _).2⟩

theorem Rewired.linked {m : Nat} (hJ : Stable J) (h : Rewired r r')
    (hj : J (r.frame n) (r.frame m) t) : J (r'.frame n) (r'.frame m) t :=
  hJ.congr hj (h.state_eq n) (h.cost_eq n) (h.state_eq m) (h.cost_eq m)

theorem addLink_linked (hJ : Stable J) (fuel : Nat) : ∀ {r : Reading} {n : Nat} {link : Link},
    Linked live J r → n < r.frames.size → live n → link.below < r.frames.size → live link.below →
    J (r.frame n) (r.frame link.below) link.tree →
    Linked live J (addLink fuel r n link) ∧ Rewired r (addLink fuel r n link) := by
  induction fuel with
  | zero => intro r n link h _ _ _ _ _; exact ⟨h, Rewired.refl r⟩
  | succ fuel ih =>
    intro r n link h hn hlive hbelow hlive' hj
    rw [addLink]
    split
    · exact ⟨h, Rewired.refl r⟩
    · extract_lets f lower added fits
      split
      · next i hi =>
        extract_lets old
        obtain ⟨hold, hfits⟩ : old ∈ f.links ∧ fits old = true := getD_of_findIdx? hi
        obtain ⟨holdlt, holdlive, -⟩ := h n hn hlive old hold
        split
        · split
          · refine ⟨h.setFrame hJ hn rfl rfl fun x hx => ?_, rewired_setFrame hn rfl rfl rfl ?_⟩
            · rcases List.mem_or_eq_of_mem_set hx with hx | rfl
              · exact h n hn hlive x hx
              · exact ⟨hbelow, hlive', hj⟩
            · intro hnil
              have hnil' : f.links.set i link = [] := hnil
              rw [List.set_eq_nil_iff] at hnil'
              exact hnil'
          · exact ⟨h, Rewired.refl r⟩
        · next hne =>
          have hsim : Reading.similar (r.frame old.below) lower = true := by
            have hor := (Bool.and_eq_true _ _ ▸ hfits).2
            rcases (Bool.or_eq_true _ _ ▸ hor) with h1 | h1
            · exact absurd h1 hne
            · exact h1
          -- the links of the lower frame also fit the one that is similar to it
          have hstep : ∀ x, ∀ l ∈ lower.links, Linked live J x → Rewired r x →
              Linked live J (addLink fuel x old.below l) ∧ Rewired x (addLink fuel x old.below l) := by
            intro x l hl hx hrel
            obtain ⟨hlt', hlive'', hj'⟩ := h _ hbelow hlive' l hl
            exact ih hx (by rw [hrel.frames_eq]; exact holdlt) holdlive
              (by rw [hrel.frames_eq]; exact hlt') hlive'' (hrel.linked hJ (hJ.similar hj' hsim))
          obtain ⟨hs, hrel⟩ := foldl_links Rewired Rewired.trans hstep h (Rewired.refl r)
          have hn' := hrel.frames_eq.symm ▸ hn
          exact ⟨hs.setFrame hJ hn' rfl rfl (hs n hn' hlive),
            hrel.trans (rewired_setFrame hn' rfl rfl rfl id)⟩
      · split
        · exact ⟨h, Rewired.refl r⟩
        · refine ⟨h.setFrame hJ hn rfl rfl fun x hx => ?_, rewired_setFrame hn rfl rfl rfl ?_⟩
          · rcases List.mem_append.mp hx with hx | hx
            · exact h n hn hlive x hx
            · rw [List.mem_singleton.mp hx]
              exact ⟨hbelow, hlive', hj⟩
          · intro hnil
            exact absurd hnil (List.append_ne_nil_of_right_ne_nil _ (List.cons_ne_nil _ _))

/-- The branch `w` is gone because it has been merged into another one. -/
structure Merges (w : Nat) (r r' : Reading) : Prop extends Drops w r r' where
  finished_eq : r'.finished = r.finished
  cost_eq : ∀ n, (r'.frame n).cost = (r.frame n).cost
  links_nil : ∀ n, (r'.frame n).links = [] → (r.frame n).links = []
  waypoints_lt : ∀ u, u < w → (r'.branch u).waypoints = (r.branch u).waypoints
  waypoints_ge : ∀ u, w ≤ u → (r'.branch u).waypoints = (r.branch (u + 1)).waypoints

/-- Merging keeps what is true of the links, if it is about branches on live frames. -/
theorem merge?_linked (hJ : Stable J) (h : r.Sound text) (hl : Linked live J r)
    (hlive : ∀ u, r.isActive u = true → live (r.branch u).top) (hm : r.merge? v w = some r') :
    Linked live J r' ∧ Merges w r r' := by
  have hdrops := (merge?_sound h hm).2
  unfold merge? at hm
  split at hm
  · next hcan =>
    rw [canMerge, Bool.and_eq_true, Bool.and_eq_true] at hcan
    obtain ⟨⟨hlv, hlw⟩, hsim⟩ := hcan
    extract_lets n merged b b' at hm
    have hv := h.branch_top_lt v
    have hw := h.branch_top_lt w
    -- what is true of the links of the top of `w` is true of them on the top of `v`, which is similar
    have hstep : ∀ x, ∀ l ∈ (r.top w).links, Linked live J x → Rewired r x →
        Linked live J (addLink (x.frames.size + 1) x n l)
          ∧ Rewired x (addLink (x.frames.size + 1) x n l) := by
      intro x l hmem hx hrel
      obtain ⟨hlt, hlive', hj⟩ := hl _ hw (hlive w hlw) l hmem
      exact addLink_linked hJ _ hx (by rw [hrel.frames_eq]; exact hv) (hlive v hlv)
        (by rw [hrel.frames_eq]; exact hlt) hlive' (hrel.linked hJ (hJ.similar hj hsim))
    obtain ⟨hs, hrel⟩ : Linked live J merged ∧ Rewired r merged :=
      foldl_links Rewired Rewired.trans hstep hl (Rewired.refl r)
    have hb : b'.waypoints = (r.branch v).waypoints := by
      have hb' : b'.waypoints = b.waypoints := by
        show (if _ then _ else _ : Branch).waypoints = _
        split <;> rfl
      rw [hb', show b = r.branch v from hrel.branch v]
    -- only the count at the last error is changed besides
    have hway : ∀ u, ((merged.setBranch v b').branch u).waypoints = (r.branch u).waypoints := by
      intro u
      by_cases hu : u = v
      · subst hu
        by_cases hlt : u < merged.size
        · rw [branch_setBranch hlt, hb]
        · rw [show merged.setBranch u b' = merged by
            unfold setBranch
            rw [List.set_eq_of_length_le (Nat.le_of_not_lt hlt)], hrel.branch]
      · rw [branch_setBranch_ne hu, hrel.branch]
    cases hm
    exact ⟨hs.of_frames rfl, hdrops, hrel.finished_eq, hrel.cost_eq, hrel.links_nil,
      fun u hu => by rw [branch_removeBranch_lt hu, hway],
      fun u hu => by rw [branch_removeBranch_ge hu, hway]⟩
  · cases hm

end Reading

end SpanIndex.Syntax
