import SpanIndex.Proofs.Syntax.Replay

/-!
# Readings in which everything fits

Some of what is done depends on where it is done: frames and trees are told apart by their places, and
what does not fit is measured. In a clean reading nothing has been measured, and only the bottom frame
lies before the line breaks in front of the text. So links are added, branches merged and productions
closed in the same way as in the corresponding reading (`addLink_raise`, `merge?_raise`, `reduce_raise`),
and the reading stays clean.
-/

namespace SpanIndex.Syntax

namespace Reading

variable {k n m v w : Nat} {text : List Char} {r r' : Reading} {b : Branch} {f g : Frame}
  {st : Option State}

/-- The tree between two frames fits, and if it is set apart then it leaves the state as it is. -/
def FitsBetween (k : Nat) (f g : Frame) (t : Option Tree) : Prop :=
  ∃ x, t = some x ∧ x.Plain k
    ∧ (x.facts.extra = true → x.facts.label ≠ .endOfInput → (g.state == f.state) = true)

theorem stable_fitsBetween (k : Nat) : Stable (FitsBetween k) where
  congr := by
    rintro f f' g g' t ⟨x, ht, hx, hextra⟩ hf - hg -
    refine ⟨x, ht, hx, ?_⟩
    rw [hf, hg]
    exact hextra
  similar := by
    rintro f f' g t ⟨x, ht, hx, hextra⟩ hsim
    refine ⟨x, ht, hx, fun h h' => ?_⟩
    have hstate := (Bool.and_eq_true _ _ ▸ hsim).2
    rw [beq_state_iff] at hstate ⊢
    rw [hstate]
    exact beq_state_iff.mp (hextra h h')

/-- Everything on the stack fits, and lies behind the `k` line breaks in front of the text. Only the
bottom frame lies before them. -/
structure Smooth (k : Nat) (r : Reading) : Prop where
  linked : Linked (fun _ => True) (FitsBetween k) r
  clear : ∀ n, n < r.frames.size → n = 0 ∨ k < (r.frame n).place.index
  bottom_index : (r.frame 0).place.index = 0
  bottom_links : (r.frame 0).links = []
  bottom_state : (r.frame 0).state = some State.start
  cost_eq : ∀ n, n < r.frames.size → (r.frame n).cost = 0
  state_ne : ∀ n, n < r.frames.size → (r.frame n).state ≠ none

theorem Smooth.clear_place (h : r.Smooth k) (hn : n < r.frames.size) : (r.frame n).place.Clear k := by
  rcases h.clear n hn with rfl | hlt
  · exact Or.inl h.bottom_index
  · exact Or.inr hlt

theorem Smooth.eq_zero (h : r.Smooth k) (hn : n < r.frames.size) (hz : (r.frame n).place.index = 0) :
    n = 0 := by
  rcases h.clear n hn with hn | hlt
  · exact hn
  · omega

theorem Smooth.rewired (h : r.Smooth k) (hl : Linked (fun _ => True) (FitsBetween k) r')
    (hr : Rewired r r')
    (hzero : (r'.frame 0).links = []) : r'.Smooth k where
  linked := hl
  clear := fun n hn => by rw [hr.place_eq]; exact h.clear n (hr.frames_eq ▸ hn)
  bottom_index := by rw [hr.place_eq]; exact h.bottom_index
  bottom_links := hzero
  bottom_state := by rw [hr.state_eq]; exact h.bottom_state
  cost_eq := fun n hn => by rw [hr.cost_eq]; exact h.cost_eq n (hr.frames_eq ▸ hn)
  state_ne := fun n hn => by rw [hr.state_eq]; exact h.state_ne n (hr.frames_eq ▸ hn)

/-! ## Merging -/

/-- Frames that can be told apart correspond to frames that can. -/
theorem similar_raise (hs : r.Sound (lowered k text)) (h : r.Smooth k) (hn : n < r.frames.size)
    (hm : m < r.frames.size) :
    similar ((r.frame n).raise k) ((r.frame m).raise k) = similar (r.frame n) (r.frame m) := by
  unfold similar
  show (((r.frame n).place.raise k).offset == ((r.frame m).place.raise k).offset && _ && _) = _
  rw [(h.clear_place hn).offset_beq (hs.place_in n hn) (hs.place_in m hm) (h.clear_place hm)]
  rfl

/-- The links of two frames lead to the same place by the same way. -/
def linkFits (r : Reading) (link l : Link) : Bool :=
  (match l.tree, link.tree with
    | none, none => true
    | some s, some t => s.equivalent t
    | _, _ => false)
  && (l.below == link.below || similar (r.frame l.below) (r.frame link.below))

theorem linkFits_raise (hs : r.Sound (lowered k text)) (h : r.Smooth k) {l link : Link}
    (hbelow : link.below < r.frames.size) (hlink : Joins (lowered k text) (r.frame link.below) f link.tree)
    (hfits : FitsBetween k f (r.frame link.below) link.tree)
    (hn : n < r.frames.size) (hl : l ∈ (r.frame n).links) :
    linkFits (r.raise k) (link.raise k) (l.raise k) = linkFits r link l := by
  obtain ⟨hlt, -, x, hx, hplain, -⟩ := h.linked n hn trivial l hl
  obtain ⟨y, hy, hplain', -⟩ := hfits
  have hjoin := hs.joins n hn l hl
  rw [hx] at hjoin
  rw [hy] at hlink
  have heq : (x.raise k).equivalent (y.raise k) = x.equivalent y := by
    refine Tree.equivalent_raise hjoin.sound hlink.sound hplain hplain' ?_ ?_
    · rw [hjoin.before_eq]
      exact h.clear_place hlt
    · rw [hlink.before_eq]
      exact h.clear_place hbelow
  unfold linkFits
  simp only [Link.raise, hx, hy, Option.map_some, heq, frame_raise, similar_raise hs h hlt hbelow]

theorem findIdx?_congr {α : Type} {p q : α → Bool} {xs : List α} (h : ∀ x ∈ xs, p x = q x) :
    xs.findIdx? p = xs.findIdx? q := by
  induction xs with
  | nil => rfl
  | cons x xs ih =>
    rw [List.findIdx?_cons, List.findIdx?_cons, h x List.mem_cons_self,
      ih fun y hy => h y (List.mem_cons_of_mem _ hy)]

/-- Adding a link, with `linkFits` in place of its definition. -/
theorem addLink_succ (fuel : Nat) (r : Reading) (n : Nat) (link : Link) :
    addLink (fuel + 1) r n link =
      if link.below == n then r
      else
        let f := r.frame n
        let lower := r.frame link.below
        let added := (link.tree.map (·.facts.weight)).getD 0
        match f.links.findIdx? (linkFits r link) with
        | some i =>
          let old := f.links.getD i default
          if old.below == link.below then
            if (old.tree.map (·.facts.weight)).getD 0 < added then
              r.setFrame n { f with links := f.links.set i link, weight := lower.weight + added }
            else r
          else
            let r := lower.links.foldl (fun r l => addLink fuel r old.below l) r
            let f := r.frame n
            r.setFrame n { f with weight := max f.weight (lower.weight + added) }
        | none =>
          if maxLinks ≤ f.links.length then r
          else
            let count := lower.count + (link.tree.map Tree.count).getD 0
            r.setFrame n
              { f with
                links := f.links ++ [link]
                count := max f.count count
                weight := max f.weight (lower.weight + added) } := rfl

/-- What is needed of a link that is added to the frame `n`. -/
structure Addable (k : Nat) (text : List Char) (r : Reading) (n : Nat) (link : Link) : Prop where
  lt_size : n < r.frames.size
  ne_zero : n ≠ 0
  below_lt : link.below < r.frames.size
  joins : Joins (lowered k text) (r.frame link.below) (r.frame n) link.tree
  fits : FitsBetween k (r.frame n) (r.frame link.below) link.tree

theorem Addable.rewired {link : Link} (h : Addable k text r n link) (hr : Rewired r r') :
    Addable k text r' n link where
  lt_size := hr.frames_eq.symm ▸ h.lt_size
  ne_zero := h.ne_zero
  below_lt := hr.frames_eq.symm ▸ h.below_lt
  joins := hr.joins h.joins
  fits := hr.linked (stable_fitsBetween k) h.fits

/-- The links of a frame can be added to one that is similar to it. -/
theorem Addable.of_similar (hs : r.Sound (lowered k text)) (h : r.Smooth k) (hn : n < r.frames.size)
    (hm : m < r.frames.size) (hsim : similar (r.frame n) (r.frame m) = true) {l : Link}
    (hl : l ∈ (r.frame m).links) : Addable k text r n l := by
  have hplace := similar_place hs hn hm hsim
  obtain ⟨hbelow, -, hfits⟩ := h.linked m hm trivial l hl
  refine ⟨hn, ?_, hbelow, Joins.of_similar (hs.joins m hm l hl) hplace hsim,
    (stable_fitsBetween k).similar hfits hsim⟩
  -- only the bottom frame is similar to the bottom frame, and it has no links
  rintro rfl
  obtain rfl := h.eq_zero hm (hplace ▸ h.bottom_index)
  rw [h.bottom_links] at hl
  cases hl

/-- The readings correspond, and everything on the stack still fits. -/
structure Replays (k : Nat) (text : List Char) (r r' x : Reading) : Prop where
  sound : r'.Sound (lowered k text)
  smooth : r'.Smooth k
  rewired : Rewired r r'
  raise_eq : x = r'.raise k

/-- Links are added to both readings one after the other. -/
theorem Replays.foldl {step step' : Reading → Link → Reading} {links : List Link}
    (hstep : ∀ x, ∀ l ∈ links, Replays k text r x (x.raise k) →
      Replays k text x (step x l) (step' (x.raise k) (l.raise k)))
    {x : Reading} (hx : Replays k text r x (x.raise k)) :
    Replays k text r (links.foldl step x) ((links.map (Link.raise k)).foldl step' (x.raise k)) := by
  induction links generalizing x with
  | nil => exact hx
  | cons l links ih =>
    have hl := hstep x l List.mem_cons_self hx
    rw [List.map_cons, List.foldl_cons, List.foldl_cons, hl.raise_eq]
    exact ih (fun y l' hl' => hstep y l' (List.mem_cons_of_mem _ hl'))
      ⟨hl.sound, hl.smooth, hx.rewired.trans hl.rewired, rfl⟩

theorem addLink_raise (fuel : Nat) : ∀ {r : Reading} {n : Nat} {link : Link},
    r.Sound (lowered k text) → r.Smooth k → Addable k text r n link →
    Replays k text r (addLink fuel r n link) (addLink fuel (r.raise k) n (link.raise k)) := by
  induction fuel with
  | zero => intro r n link hs h _; exact ⟨hs, h, Rewired.refl r, rfl⟩
  | succ fuel ih =>
    intro r n link hs h ha
    obtain ⟨hsound, hrelinked⟩ := addLink_sound (fuel + 1) hs ha.lt_size ha.below_lt ha.joins
    obtain ⟨hlinked, hrewired⟩ := addLink_linked (stable_fitsBetween k) (fuel + 1) h.linked ha.lt_size
      trivial ha.below_lt trivial ha.fits
    suffices hmain : ((addLink (fuel + 1) r n link).frame 0).links = []
        ∧ addLink (fuel + 1) (r.raise k) n (link.raise k) = (addLink (fuel + 1) r n link).raise k from
      ⟨hsound, h.rewired hlinked hrewired hmain.1, hrewired, hmain.2⟩
    have hset : ∀ (x : Reading) (f f' : Frame), (x.frame 0).links = [] → f' = f.raise k →
        ((x.setFrame n f).frame 0).links = []
          ∧ (x.raise k).setFrame n f' = (x.setFrame n f).raise k := by
      rintro x f f' hx rfl
      rw [frame_setFrame_ne ha.ne_zero.symm]
      exact ⟨hx, setFrame_raise k x n f⟩
    have hfind : ((r.frame n).raise k).links.findIdx? (linkFits (r.raise k) (link.raise k))
        = (r.frame n).links.findIdx? (linkFits r link) := by
      show ((r.frame n).links.map (Link.raise k)).findIdx? _ = _
      rw [List.findIdx?_map]
      exact findIdx?_congr fun l hl => linkFits_raise hs h ha.below_lt ha.joins ha.fits ha.lt_size hl
    have hbelow : (link.raise k).below = link.below := rfl
    rw [addLink_succ, addLink_succ, hbelow]
    simp only [frame_raise, hfind, Link.weight_raise, Link.count_raise, Frame.getD_links_raise]
    split
    · exact ⟨h.bottom_links, rfl⟩
    · split
      · next i hi =>
        obtain ⟨hold, hfits⟩ := getD_of_findIdx? hi
        generalize (r.frame n).links.getD i default = old at hold hfits
        have holdlt := hs.below_lt n ha.lt_size old hold
        show _ ∧ (if old.below == link.below then _ else _) = _
        split
        · split
          · refine hset r _ _ h.bottom_links ?_
            simp [Frame.raise, List.map_set]
          · exact ⟨h.bottom_links, rfl⟩
        · next hne =>
          have hsim : similar (r.frame old.below) (r.frame link.below) = true := by
            have hor := (Bool.and_eq_true _ _ ▸ hfits).2
            exact (Bool.or_eq_true _ _ ▸ hor).resolve_left hne
          have hadd : ∀ l ∈ (r.frame link.below).links, Addable k text r old.below l := fun l =>
            Addable.of_similar hs h holdlt ha.below_lt hsim
          have hfold : Replays k text r
              ((r.frame link.below).links.foldl (fun r l => addLink fuel r old.below l) r)
              (((r.frame link.below).links.map (Link.raise k)).foldl
                (fun r l => addLink fuel r old.below l) (r.raise k)) :=
            Replays.foldl (fun x l hl hx => ih hx.sound hx.smooth ((hadd l hl).rewired hx.rewired))
              ⟨hs, h, Rewired.refl r, rfl⟩
          have hraise : ((r.frame link.below).raise k).links.foldl
              (fun r l => addLink fuel r (old.raise k).below l) (r.raise k) = _ := hfold.raise_eq
          rw [hraise]
          refine hset _ _ _ hfold.smooth.bottom_links ?_
          rw [frame_raise]
          rfl
      · show _ ∧ (if maxLinks ≤ ((r.frame n).links.map (Link.raise k)).length then _ else _) = _
        rw [List.length_map]
        split
        · exact ⟨h.bottom_links, rfl⟩
        · refine hset r _ _ h.bottom_links ?_
          simp [Frame.raise]

/-- Everything that has been read fits. No branch has gone back, and the trees that are complete lie behind
the line breaks. -/
structure Clean (k : Nat) (r : Reading) : Prop extends r.Smooth k where
  waypoints_eq : ∀ b ∈ r.branches, b.waypoints = none
  paused_costless : ∀ b ∈ r.branches, ∀ t, b.status = .paused t → t.Costless
  finished_costless : ∀ t, r.finished = some t →
    t.Costless ∧ ∀ c ∈ t.children, k ≤ c.facts.start.index
  furthest_clear : r.furthest = 0 ∨ k < r.furthest

/-- A branch in front of a token that costs nothing, and that has not gone back. -/
def CleanBranch (b : Branch) : Prop :=
  b.waypoints = none ∧ ∀ t, b.status = .paused t → t.Costless

theorem Clean.branch (h : r.Clean k) (v : Nat) : CleanBranch (r.branch v) := by
  rcases r.branch_mem v with hb | hb
  · exact ⟨h.waypoints_eq _ hb, h.paused_costless _ hb⟩
  · rw [hb]
    exact ⟨rfl, fun t ht => by cases ht⟩

theorem Clean.of_branches (h : r.Clean k) (hsmooth : r'.Smooth k) (hfin : r'.finished = r.finished)
    (hfur : r'.furthest = r.furthest) (hb : ∀ b ∈ r'.branches, CleanBranch b) : r'.Clean k where
  toSmooth := hsmooth
  waypoints_eq := fun b hmem => (hb b hmem).1
  paused_costless := fun b hmem => (hb b hmem).2
  finished_costless := by rw [hfin]; exact h.finished_costless
  furthest_clear := by rw [hfur]; exact h.furthest_clear

theorem Smooth.of_frames (h : r.Smooth k) (hf : r'.frames = r.frames) : r'.Smooth k := by
  have hframe : ∀ n, r'.frame n = r.frame n := fun n => by unfold frame; rw [hf]
  refine ⟨h.linked.of_frames hf, ?_, ?_, ?_, ?_, ?_, ?_⟩
  · intro n hn; rw [hframe]; exact h.clear n (hf ▸ hn)
  · rw [hframe]; exact h.bottom_index
  · rw [hframe]; exact h.bottom_links
  · rw [hframe]; exact h.bottom_state
  · intro n hn; rw [hframe]; exact h.cost_eq n (hf ▸ hn)
  · intro n hn; rw [hframe]; exact h.state_ne n (hf ▸ hn)

theorem Clean.of_sublist (h : r.Clean k) (hf : r'.frames = r.frames) (hfin : r'.finished = r.finished)
    (hfur : r'.furthest = r.furthest) (hb : ∀ b ∈ r'.branches, b ∈ r.branches) : r'.Clean k :=
  h.of_branches (h.toSmooth.of_frames hf) hfin hfur fun b hmem =>
    ⟨h.waypoints_eq b (hb b hmem), h.paused_costless b (hb b hmem)⟩

theorem Clean.setBranch (h : r.Clean k) (hb : CleanBranch b) : (r.setBranch v b).Clean k := by
  refine h.of_branches (h.toSmooth.of_frames rfl) rfl rfl fun b' hmem => ?_
  rcases List.mem_or_eq_of_mem_set hmem with hmem | rfl
  · exact ⟨h.waypoints_eq _ hmem, h.paused_costless _ hmem⟩
  · exact hb

theorem Clean.addBranch (h : r.Clean k) (hb : CleanBranch b) : (r.addBranch b).Clean k := by
  refine h.of_branches (h.toSmooth.of_frames rfl) rfl rfl fun b' hmem => ?_
  rcases List.mem_append.mp hmem with hmem | hmem
  · exact ⟨h.waypoints_eq _ hmem, h.paused_costless _ hmem⟩
  · rw [List.mem_singleton.mp hmem]
    exact hb

theorem Clean.removeBranch (h : r.Clean k) (v : Nat) : (r.removeBranch v).Clean k :=
  h.of_sublist rfl rfl rfl fun _ hmem => List.mem_of_mem_eraseIdx hmem

theorem Clean.setStatus (h : r.Clean k) {s : Status} (hs : ∀ t, s = .paused t → t.Costless) :
    (r.setStatus v s).Clean k :=
  h.setBranch ⟨(h.branch v).1, hs⟩

theorem Clean.halt (h : r.Clean k) (v : Nat) : (r.setStatus v .halted).Clean k :=
  h.setStatus fun _ ht => by cases ht

theorem Clean.replays {x : Reading} (h : r.Clean k) (hr : Replays k text r r' x) : r'.Clean k :=
  h.of_branches hr.smooth hr.rewired.finished_eq hr.rewired.furthest_eq fun b hb => by
    rw [hr.rewired.branches_eq] at hb
    exact ⟨h.waypoints_eq b hb, h.paused_costless b hb⟩

theorem canMerge_raise (hs : r.Sound (lowered k text)) (h : r.Smooth k) (v w : Nat) :
    (r.raise k).canMerge v w = r.canMerge v w := by
  unfold canMerge Reading.isActive
  rw [branch_raise, branch_raise, isActive_raise, isActive_raise, top_raise, top_raise]
  unfold Reading.top
  rw [similar_raise hs h (hs.branch_top_lt v) (hs.branch_top_lt w)]

theorem merge?_raise (hs : r.Sound (lowered k text)) (h : r.Clean k) (v w : Nat) :
    (r.raise k).merge? v w = (r.merge? v w).map (raise k)
      ∧ ∀ r', r.merge? v w = some r' → r'.Clean k := by
  unfold merge?
  rw [canMerge_raise hs h.toSmooth]
  split
  · next hcan =>
    rw [canMerge, Bool.and_eq_true] at hcan
    have hsim := hcan.2
    have hadd : ∀ l ∈ (r.top w).links, Addable k text r (r.branch v).top l := fun l =>
      Addable.of_similar hs h.toSmooth (hs.branch_top_lt v) (hs.branch_top_lt w) hsim
    have hfold : Replays k text r
        ((r.top w).links.foldl (fun x l => addLink (x.frames.size + 1) x (r.branch v).top l) r)
        (((r.top w).links.map (Link.raise k)).foldl
          (fun x l => addLink (x.frames.size + 1) x (r.branch v).top l) (r.raise k)) := by
      refine Replays.foldl (fun x l hl hx => ?_) ⟨hs, h.toSmooth, Rewired.refl r, rfl⟩
      have hsize : (x.raise k).frames.size = x.frames.size := Array.size_map
      rw [hsize]
      exact addLink_raise _ hx.sound hx.smooth ((hadd l hl).rewired hx.rewired)
    extract_lets n merged b b' n' merged' c c'
    have hmerged : merged = merged'.raise k := by
      have hraise := hfold.raise_eq
      show ((r.raise k).top w).links.foldl (fun x l => addLink (x.frames.size + 1) x n l) (r.raise k) = _
      rw [top_raise]
      show ((r.top w).links.map (Link.raise k)).foldl
        (fun x l => addLink (x.frames.size + 1) x ((r.raise k).branch v).top l) (r.raise k) = _
      rw [branch_raise]
      exact hraise
    have hb : b = c.raise k := by
      show merged.branch v = (merged'.branch v).raise k
      rw [hmerged, branch_raise]
    have hb' : b' = c'.raise k := by
      show (if (merged.frame n).state.isNone then { b with countAtError := (merged.frame n).count } else b)
        = (if (merged'.frame n').state.isNone then
          { c with countAtError := (merged'.frame n').count } else c).raise k
      rw [hb, hmerged, frame_raise, show n = n' from by
        show ((r.raise k).branch v).top = _
        rw [branch_raise]
        rfl]
      show (if (merged'.frame n').state.isNone then _ else _) = _
      split <;> rfl
    have hc' : CleanBranch c' := by
      have hc : CleanBranch c := by
        rw [show c = r.branch v from hfold.rewired.branch v]
        exact h.branch v
      show CleanBranch (if _ then _ else _)
      split <;> exact hc
    refine ⟨?_, ?_⟩
    · rw [Option.map_some, ← removeBranch_raise, ← setBranch_raise, ← hmerged, ← hb']
    · rintro r' ⟨⟩
      exact ((h.replays hfold).setBranch hc').removeBranch w
  · exact ⟨rfl, fun _ hr => by cases hr⟩

theorem mergeFirst?_raise (hs : r.Sound (lowered k text)) (h : r.Clean k) (vs : List Nat) (w : Nat) :
    (r.raise k).mergeFirst? vs w = (r.mergeFirst? vs w).map (raise k)
      ∧ ∀ r', r.mergeFirst? vs w = some r' → r'.Clean k := by
  constructor
  · unfold mergeFirst?
    induction vs with
    | nil => rfl
    | cons v vs ih =>
      rw [List.findSome?_cons, List.findSome?_cons, (merge?_raise hs h v w).1]
      cases r.merge? v w with
      | none => exact ih
      | some y => rfl
  · intro r' hr
    obtain ⟨v, -, hv⟩ := List.exists_of_findSome?_eq_some hr
    exact (merge?_raise hs h v w).2 r' hv

/-! ## Pushing -/

variable {t : Tree}

theorem Smooth.push (h : r.Smooth k) (htop : (r.branch v).top < r.frames.size) (ht : t.Plain k)
    (hst : st ≠ none)
    (hextra : t.facts.extra = true → t.facts.label ≠ .endOfInput → (r.state v == st) = true) :
    (r.push v (some t) st).Smooth k := by
  have hsize : (r.push v (some t) st).frames.size = r.frames.size + 1 := by
    rw [frames_push, Array.size_push]
  have hpos : 0 < r.frames.size := by omega
  have hcases : ∀ n, n < (r.push v (some t) st).frames.size → n < r.frames.size ∨ n = r.frames.size := by
    intro n hn
    omega
  refine ⟨h.linked.push htop fun _ => ⟨trivial, t, rfl, ht, ?_⟩, ?_, ?_, ?_, ?_, ?_, ?_⟩
  · intro hx hl
    rw [state_pushed]
    exact hextra hx hl
  · intro n hn
    rcases hcases n hn with hn | rfl
    · rw [frame_push_lt hn]
      exact h.clear n hn
    · rw [frame_push]
      exact Or.inr ht.lt_stop
  · rw [frame_push_lt hpos]
    exact h.bottom_index
  · rw [frame_push_lt hpos]
    exact h.bottom_links
  · rw [frame_push_lt hpos]
    exact h.bottom_state
  · intro n hn
    rcases hcases n hn with hn | rfl
    · rw [frame_push_lt hn]
      exact h.cost_eq n hn
    · rw [frame_push]
      show (r.frame (r.branch v).top).cost + t.facts.cost = 0
      rw [h.cost_eq _ htop, ht.costless.cost_eq]
  · intro n hn
    rcases hcases n hn with hn | rfl
    · rw [frame_push_lt hn]
      exact h.state_ne n hn
    · rw [frame_push, state_pushed]
      exact hst

theorem Clean.push (h : r.Clean k) (htop : (r.branch v).top < r.frames.size) (ht : t.Plain k)
    (hst : st ≠ none)
    (hextra : t.facts.extra = true → t.facts.label ≠ .endOfInput → (r.state v == st) = true) :
    (r.push v (some t) st).Clean k := by
  refine h.of_branches (h.toSmooth.push htop ht hst hextra) (finished_push _ _ _ _) rfl fun b hb => ?_
  rw [push_eq] at hb
  rcases List.mem_or_eq_of_mem_set hb with hb | rfl
  · exact ⟨h.waypoints_eq b hb, h.paused_costless b hb⟩
  · exact h.branch v

/-- Comments are put on top of a branch without a change of state. -/
theorem Clean.foldl_push {trees : List Tree} {next : State} (h : r.Clean k) (hv : v < r.size)
    (htop : (r.branch v).top < r.frames.size) (hstate : r.state v = some next)
    (htrees : ∀ t ∈ trees, t.Plain k) :
    (trees.foldl (fun x t => x.push v (some t) (some next)) r).Clean k := by
  induction trees generalizing r with
  | nil => exact h
  | cons t trees ih =>
    rw [List.foldl_cons]
    refine ih (h.push htop (htrees t List.mem_cons_self) (Option.some_ne_none _) fun _ _ => ?_) ?_ ?_
      (state_push hv) fun t' ht' => htrees t' (List.mem_cons_of_mem _ ht')
    · rw [hstate, beq_state_iff]
    · rw [size_push]
      exact hv
    · rw [top_push hv, frames_push, Array.size_push]
      exact Nat.lt_succ_self _

theorem foldl_push_raise (k v : Nat) (st : Option State) (trees : List Tree) (r : Reading) :
    (trees.map (Tree.raise k)).foldl (fun x t => x.push v (some t) st) (r.raise k)
      = (trees.foldl (fun x t => x.push v (some t) st) r).raise k := by
  induction trees generalizing r with
  | nil => rfl
  | cons t trees ih =>
    rw [List.map_cons, List.foldl_cons, List.foldl_cons, ← ih, ← push_raise]
    rfl

/-! ## Closing a production -/

variable {p : Nat}

/-- What is taken off a branch fits, and if nothing is then the branch stays where it is. -/
theorem slices_plain (hs : r.Sound text) (h : r.Smooth k) {depth : Nat}
    {s : Nat × List (List Tree)} (hmem : s ∈ r.slices v depth) {trees : List Tree}
    (htrees : trees ∈ s.2) :
    (∀ t ∈ trees, t.Plain k) ∧ (trees = [] → s.1 = (r.branch v).top) := by
  have hpath := (slices_induction (P := fun p => p.node < r.frames.size ∧ (∀ t ∈ p.trees, t.Plain k)
    ∧ (p.trees = [] → p.node = (r.branch v).top)) ?_ ?_ hmem).2 trees htrees
  · exact hpath.2
  · exact ⟨hs.branch_top_lt v, (fun t ht => by cases ht), fun _ => rfl⟩
  · rintro q ⟨hq, hplain, -⟩ - l hl
    obtain ⟨hlt, -, x, hx, hxplain, -⟩ := h.linked q.node hq trivial l hl
    unfold Path.follow
    rw [hx]
    refine ⟨hlt, ?_, fun hnil => by cases hnil⟩
    intro t ht
    rcases List.mem_cons.mp ht with rfl | ht
    · exact hxplain
    · exact hplain t ht

/-- The phrase that is made of trees that fit fits. -/
theorem plain_phrase {trees : List Tree} (hplain : ∀ t ∈ trees, t.Plain k)
    (hfirst : ∀ t, trees.head? = some t → t.facts.extra = false) {here : Place}
    (hhere : trees = [] → k < here.index) (c : Category) (n : Option Nat) (weight : Int) :
    ((Tree.build (.symbol (.category c)) n here (Tree.splitTrailing trees).1).addWeight weight).Plain k := by
  have hsub : ∀ t ∈ (Tree.splitTrailing trees).1, t.Plain k := fun t ht =>
    hplain t (splitTrailing_append trees ▸ List.mem_append_left _ ht)
  have hnil : (Tree.splitTrailing trees).1 = [] → trees = [] := by
    intro hnil
    cases trees with
    | nil => rfl
    | cons t ts =>
      have hlast := getLast?_splitTrailing (t :: ts)
      rw [hnil, List.filter_cons, hfirst t rfl] at hlast
      simp [List.getLast?_cons] at hlast
  have hcost := (Tree.costless_build (l := .symbol (.category c)) rfl n here
    fun t ht => (hsub t ht).costless).addWeight weight
  generalize (Tree.splitTrailing trees).1 = inner at hsub hnil hcost
  refine ⟨hcost, by rw [Tree.label_addWeight]; rfl, ?_, ?_⟩
  · show k ≤ (((inner.head?.map (·.facts.start)).getD here)).index
    cases inner with
    | nil => exact Nat.le_of_lt (hhere (hnil rfl))
    | cons t ts => exact (hsub t List.mem_cons_self).le_start
  · rw [Tree.stop_addWeight]
    show k < (((inner.getLast?.map (·.facts.stop)).getD here)).index
    cases hlast : inner.getLast? with
    | none => exact hhere (hnil (List.getLast?_eq_none_iff.mp hlast))
    | some t => exact (hsub t (List.mem_of_getLast? hlast)).lt_stop

theorem closing_raise (k : Nat) (r : Reading) (v p node : Nat) (next : State) (phrase : Tree)
    (trailing : List Tree) :
    (r.raise k).closing v p node next (phrase.raise k) (trailing.map (Tree.raise k))
      = (r.closing v p node next phrase trailing).raise k := by
  unfold closing
  rw [← foldl_push_raise, ← push_raise, ← addBranch_raise, branch_raise, size_raise, Option.map_some,
    ← Tree.addWeight_raise]
  rfl

theorem closing_clean (hs : r.Sound (lowered k text)) (h : r.Clean k) {st : State}
    (hst : r.state v = some st) (hc : st.Closes p) (htop : (r.branch v).top ≠ 0) {x : Reading}
    (hclean : x.Clean k) (hkeeps : Keeps r.size r x) {node : Nat}
    {alternatives : List (List Tree)}
    (hmem : (node, alternatives) ∈ r.slices v (Grammar.production p).steps.size) {trees : List Tree}
    (htrees : trees ∈ alternatives) (next : State) :
    (x.closing v p node next (x.phraseOf p node trees) (Tree.splitTrailing trees).2).Clean k := by
  obtain ⟨hplain, hnode⟩ := slices_plain hs h.toSmooth hmem htrees
  obtain ⟨hway, hcol⟩ := (slices_reduce hs hst hc hmem).2 trees htrees
  have hlt : node < x.frames.size := Nat.lt_of_lt_of_le hway.node_lt hkeeps.frames_le
  have hfirst := hcol.first
  simp only [forall_const] at hfirst
  have hhere : trees = [] → k < (x.frame node).place.index := by
    intro hnil
    rcases hclean.clear node hlt with hz | hlt
    · exact absurd ((hnode hnil).symm.trans hz) htop
    · exact hlt
  have hphrase := plain_phrase hplain hfirst hhere (Grammar.production p).head (some p)
    (Grammar.production p).weight
  have hbranch : (x.addBranch ⟨node, (x.branch v).countAtError, .active, none⟩).branch x.size
      = ⟨node, (x.branch v).countAtError, .active, none⟩ := branch_addBranch _ _
  have hsize : x.size < (x.addBranch ⟨node, (x.branch v).countAtError, .active, none⟩).size := by
    rw [size_addBranch]
    exact Nat.lt_succ_self _
  have hadd : (x.addBranch ⟨node, (x.branch v).countAtError, .active, none⟩).Clean k :=
    hclean.addBranch ⟨rfl, fun t ht => by cases ht⟩
  have hpush := hadd.push (v := x.size) (by rw [hbranch]; exact hlt) hphrase
    (Option.some_ne_none next) fun hx => by
      rw [Tree.extra_addWeight] at hx
      cases hx
  refine hpush.foldl_push (by rw [size_push]; exact hsize) ?_ (state_push hsize) fun t ht => ?_
  · rw [top_push hsize, frames_push, Array.size_push]
    exact Nat.lt_succ_self _
  · exact hplain t (splitTrailing_append trees ▸ List.mem_append_right _ ht)

theorem closeSlice_raise (hs : r.Sound (lowered k text)) (h : r.Clean k) {st : State}
    (hst : r.state v = some st) (hc : st.Closes p) (htop : (r.branch v).top ≠ 0) {x : Reading}
    (hx : x.Sound (lowered k text)) (hclean : x.Clean k) (hkeeps : Keeps r.size r x)
    {s : Nat × List (List Tree)} (hmem : s ∈ r.slices v (Grammar.production p).steps.size)
    (halted : Nat) :
    (closeSlice v p halted x s).Clean k
      ∧ closeSlice v p halted (x.raise k) (raiseSlice k s) = (closeSlice v p halted x s).raise k := by
  obtain ⟨node, alternatives⟩ := s
  have hmake : ∀ trees : List Tree,
      Tree.build (.symbol (.category (Grammar.production p).head)) (some p)
          ((x.frame node).raise k).place (trees.map (Tree.raise k))
        = (Tree.build (.symbol (.category (Grammar.production p).head)) (some p)
          (x.frame node).place trees).raise k := fun trees =>
    Tree.build_raise rfl _ _ _
  have hchoose := choosePhrase_raise hmake alternatives none
  rw [Option.map_none] at hchoose
  have hstate : ((x.frame node).raise k).state = (x.frame node).state := rfl
  unfold raiseSlice
  rw [closeSlice, closeSlice, size_raise, frame_raise]
  split
  · exact ⟨hclean, rfl⟩
  · simp only
    rw [hchoose, hstate]
    cases hph : choosePhrase (Tree.build (.symbol (.category (Grammar.production p).head)) (some p)
        (x.frame node).place) alternatives none with
    | none => exact ⟨hclean, rfl⟩
    | some best =>
      obtain ⟨phrase, trailing⟩ := best
      cases hnext : (x.frame node).state.bind
          (·.advance (.category (Grammar.production p).head)) with
      | none => exact ⟨hclean, rfl⟩
      | some next =>
        obtain ⟨below, hbelow, hadv⟩ := Option.bind_eq_some_iff.mp hnext
        rcases choosePhrase_cases hph with hnone | ⟨trees, htrees, rfl, rfl⟩
        · cases hnone
        · have hcl := closing_clean hs h hst hc htop hclean hkeeps hmem htrees next
          have hsd := (closing_stands hs hst hc hx hkeeps hmem htrees hbelow hadv).1
          have hraise := closing_raise k x v p node next (x.phraseOf p node trees)
            (Tree.splitTrailing trees).2
          obtain ⟨heq, hsome⟩ := mergeFirst?_raise hsd hcl ((List.range x.size).filter (· != v)) x.size
          have hmerged : ∀ {y : Reading} {m : Option Reading}, y.Clean k →
              (∀ z, m = some z → z.Clean k) →
              (m.getD y).Clean k ∧ (m.map (raise k)).getD (y.raise k) = (m.getD y).raise k := by
            intro y m hy hm
            cases m with
            | none => exact ⟨hy, rfl⟩
            | some z => exact ⟨hm z rfl, rfl⟩
          rw [closing, size_raise] at hraise
          simp only [Option.map_some]
          erw [hraise, heq]
          exact hmerged hcl hsome

theorem halted_raise (k : Nat) (bs : List Branch) (n : Nat) :
    (bs.map (Branch.raise k)).foldl (fun n b => if b.status.isHalted then n + 1 else n) n
      = bs.foldl (fun n b => if b.status.isHalted then n + 1 else n) n := by
  rw [List.foldl_map]
  simp only [isHalted_raise]

theorem reduce_raise (hs : r.Sound (lowered k text)) (h : r.Clean k) {st : State}
    (hst : r.state v = some st) (hc : st.Closes p) (htop : (r.branch v).top ≠ 0) :
    (r.reduce v p).Clean k ∧ (r.raise k).reduce v p = (r.reduce v p).raise k := by
  have hhalted : (r.raise k).branches.foldl (fun n b => if b.status.isHalted then n + 1 else n) 0
      = r.branches.foldl (fun n b => if b.status.isHalted then n + 1 else n) 0 := halted_raise k _ 0
  unfold reduce
  rw [hhalted, slices_raise]
  extract_lets halted
  -- the slices are those of `r`, whatever the earlier ones have added
  have hfold : ∀ (slices : List (Nat × List (List Tree))) (x : Reading),
      (∀ s ∈ slices, s ∈ r.slices v (Grammar.production p).steps.size) → x.Sound (lowered k text) →
      x.Clean k → Grows r.size (r.place v) r x →
      (slices.foldl (closeSlice v p halted) x).Clean k
        ∧ (slices.map (raiseSlice k)).foldl (closeSlice v p halted) (x.raise k)
          = (slices.foldl (closeSlice v p halted) x).raise k := by
    intro slices
    induction slices with
    | nil => intro x _ _ hx _; exact ⟨hx, rfl⟩
    | cons s slices ih =>
      intro x hmem hx hclean hg
      have hs' := hmem s List.mem_cons_self
      obtain ⟨hx', hg'⟩ := closeSlice_grows hs hst hc hx hg.keeps hs' halted
      obtain ⟨hclean', heq⟩ := closeSlice_raise hs h hst hc htop hx hclean hg.keeps hs' halted
      rw [List.map_cons, List.foldl_cons, List.foldl_cons, heq]
      exact ih _ (fun s' hs' => hmem s' (List.mem_cons_of_mem _ hs')) hx' hclean' (hg.trans hx hg')
  exact hfold _ r (fun _ hs => hs) hs h (Grows.refl r _)

theorem reduceNew_raise (hs : r.Sound (lowered k text)) (h : r.Clean k) {st : State}
    (hst : r.state v = some st) (hc : st.Closes p) (htop : (r.branch v).top ≠ 0) :
    (r.reduceNew v p).1.Clean k
      ∧ (r.raise k).reduceNew v p = ((r.reduceNew v p).1.raise k, (r.reduceNew v p).2) := by
  obtain ⟨hclean, heq⟩ := reduce_raise hs h hst hc htop
  rw [fst_reduceNew]
  refine ⟨hclean, ?_⟩
  unfold reduceNew
  simp only [heq, size_raise]

theorem replaceBranch_raise (h : r.Clean k) (v w : Nat) :
    (r.replaceBranch v w).Clean k ∧ (r.raise k).replaceBranch v w = (r.replaceBranch v w).raise k := by
  unfold replaceBranch
  split
  · exact ⟨h, rfl⟩
  · extract_lets b b' c c'
    have hc : c' = b'.raise k := by
      show { (r.raise k).branch v with
        waypoints := ((r.raise k).branch v).waypoints <|> ((r.raise k).branch w).waypoints } = _
      rw [branch_raise, branch_raise]
      rfl
    have hb : CleanBranch b' := by
      refine ⟨?_, (h.branch v).2⟩
      show ((r.branch v).waypoints <|> (r.branch w).waypoints) = none
      rw [(h.branch v).1, (h.branch w).1]
      rfl
    rw [hc, setBranch_raise, removeBranch_raise]
    exact ⟨(h.setBranch hb).removeBranch v, rfl⟩

end Reading

end SpanIndex.Syntax
