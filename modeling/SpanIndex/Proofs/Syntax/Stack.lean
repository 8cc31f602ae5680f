import SpanIndex.Proofs.Syntax.Item
import SpanIndex.Proofs.Syntax.Tree

/-!
# The invariant of the stack

The frames of a reading are linked by trees. A link joins two frames properly (`Joins`) if its tree is
sound and fills the text between them, and if it accounts for the marks of the upper state: an item whose
mark stands behind a symbol needs a tree with that label below it. `Reading.Sound` says this of all links.

States and places of frames never change once they are there, only links are added. `Reading.Keeps`
says so of two readings of which one arises from the other.
-/

namespace SpanIndex.Syntax

open Text

/-- What a reader can have as its next token at a place. -/
structure TokenAt (text : List Char) (p : Place) (t : Tree) : Prop where
  sound : t.Sound text
  before_eq : t.facts.before = p
  leaf : t.children = []
  present : t.facts.missing = false
  production_eq : t.facts.production = none
  extra_eq : t.facts.extra = (t.facts.label == .endOfInput)
  word : t.facts.keyword = true → isIdentifier (t.facts.start.textTo t.facts.stop) = true

theorem TokenAt.commentAsExtra {text : List Char} {p : Place} {t : Tree} (h : TokenAt text p t) :
    t.commentAsExtra.Sound text ∧ t.commentAsExtra.facts.before = p := by
  unfold Tree.commentAsExtra
  split
  · next hc =>
    exact ⟨h.sound.asExtra (beq_iff_eq.mp hc), (Tree.before_asExtra t).trans h.before_eq⟩
  · exact ⟨h.sound, h.before_eq⟩

/-- The tree stands for a file of the grammar, or for a text that does not fit it. -/
def Tree.IsFile (t : Tree) : Prop :=
  (t.facts.label = .error ∧ t.facts.production = none)
    ∨ ∃ p, t.facts.label = .symbol (.category .sourceFile) ∧ t.facts.production = some p
      ∧ (Grammar.production p).head = .sourceFile

/-- The tree of a whole text: it has comments around and between its parts. -/
structure Tree.Root (text : List Char) (t : Tree) : Prop where
  placed : t.facts.Placed text
  covers : Tree.Covers t.facts.before t.children t.facts.stop
  children : ∀ c ∈ t.children, c.Sound text
  isFile : t.IsFile

/-! ## Links -/

/-- The item is under way in a state that may be absent. -/
def HeldBy (i : Item) (state : Option State) : Prop := ∃ st, state = some st ∧ st.Holds i

/-- The tree `t` between two states accounts for the marks of the upper one, `st`. -/
def Explains (below : Option State) (t : Tree) (st : State) : Prop :=
  ∀ i, st.Holds i → 0 < i.dot →
    (t.facts.extra = true ∧ HeldBy i below)
    ∨ (t.facts.extra = false ∧ (∃ s, i.back.next? = some s ∧ t.facts.label = .symbol s)
      ∧ (1 < i.dot → HeldBy i.back below))

/-- The tree leads from a place and a state to another place and another state. -/
structure Fits (text : List Char) (p : Place) (below : Option State) (t : Tree) (q : Place)
    (above : Option State) : Prop where
  sound : t.Sound text
  before_eq : t.facts.before = p
  stop_eq : t.facts.stop = q
  closed : t.facts.label = .error → Tree.Covers t.facts.before t.children t.facts.stop
  explains : ∀ st, above = some st → Explains below t st

/-- The frame `f` may stand on `g` with a tree between them, or with none. -/
def Joins (text : List Char) (g f : Frame) : Option Tree → Prop
  | none => g.place = f.place ∧ ∀ st, f.state = some st → ∀ i, st.Holds i → i.dot = 0
  | some t => Fits text g.place g.state t f.place f.state

theorem Joins.congr {text : List Char} {f g f' g' : Frame} {t : Option Tree}
    (h : Joins text g f t) (hg : g'.place = g.place) (hgs : g'.state = g.state)
    (hf : f'.place = f.place) (hfs : f'.state = f.state) : Joins text g' f' t := by
  cases t with
  | none =>
    refine ⟨by rw [hg, hf]; exact h.1, ?_⟩
    rw [hfs]
    exact h.2
  | some t =>
    show Fits text g'.place g'.state t f'.place f'.state
    rw [hg, hgs, hf, hfs]
    exact h

namespace Reading

/-! ## Readings of which one arises from the other -/

/-- The frames of `r` are still there, and the first `k` branches stand where they stood. -/
structure Keeps (k : Nat) (r r' : Reading) : Prop where
  frames_le : r.frames.size ≤ r'.frames.size
  place_eq : ∀ n, n < r.frames.size → (r'.frame n).place = (r.frame n).place
  state_eq : ∀ n, n < r.frames.size → (r'.frame n).state = (r.frame n).state
  le_size : k ≤ r'.size
  top_eq : ∀ u, u < k → (r'.branch u).top = (r.branch u).top
  status_eq : ∀ u, u < k → (r'.branch u).status = (r.branch u).status

variable {k m : Nat} {r r' r'' : Reading}

theorem Keeps.refl (h : k ≤ r.size) : Keeps k r r :=
  ⟨Nat.le_refl _, fun _ _ => rfl, fun _ _ => rfl, h, fun _ _ => rfl, fun _ _ => rfl⟩

theorem Keeps.trans (h : Keeps k r r') (h' : Keeps m r' r'') (hkm : k ≤ m) : Keeps k r r'' where
  frames_le := Nat.le_trans h.frames_le h'.frames_le
  place_eq := fun n hn =>
    (h'.place_eq n (Nat.lt_of_lt_of_le hn h.frames_le)).trans (h.place_eq n hn)
  state_eq := fun n hn =>
    (h'.state_eq n (Nat.lt_of_lt_of_le hn h.frames_le)).trans (h.state_eq n hn)
  le_size := Nat.le_trans hkm h'.le_size
  top_eq := fun u hu => (h'.top_eq u (Nat.lt_of_lt_of_le hu hkm)).trans (h.top_eq u hu)
  status_eq := fun u hu => (h'.status_eq u (Nat.lt_of_lt_of_le hu hkm)).trans (h.status_eq u hu)

/-! ## The invariant -/

/-- What is on the stack is true of the text. -/
structure Sound (text : List Char) (r : Reading) : Prop where
  nonempty : 0 < r.frames.size
  place_in : ∀ n, n < r.frames.size → (r.frame n).place.In text
  bounded : ∀ n, n < r.frames.size → ∀ st, (r.frame n).state = some st → st.Bounded
  below_lt : ∀ n, n < r.frames.size → ∀ l ∈ (r.frame n).links, l.below < r.frames.size
  joins : ∀ n, n < r.frames.size → ∀ l ∈ (r.frame n).links,
    Joins text (r.frame l.below) (r.frame n) l.tree
  top_lt : ∀ b ∈ r.branches, b.top < r.frames.size
  paused : ∀ b ∈ r.branches, ∀ t, b.status = .paused t → TokenAt text (r.frame b.top).place t
  root : ∀ t, r.finished = some t → t.Root text

variable {text : List Char} {u v n : Nat} {b : Branch} {s : Status}

/-- There is always a branch to look at: where none is, it is a halted one at the bottom. -/
theorem branch_mem (r : Reading) (v : Nat) : r.branch v ∈ r.branches ∨ r.branch v = default := by
  unfold branch
  rw [List.getD_eq_getElem?_getD]
  cases h : r.branches[v]? with
  | none => exact Or.inr rfl
  | some b => exact Or.inl (List.mem_of_getElem? h)

theorem branch_of_size_le (h : r.size ≤ v) : r.branch v = default := by
  unfold branch
  rw [List.getD_eq_getElem?_getD, List.getElem?_eq_none h]
  rfl

theorem branch_eq_getElem (hv : v < r.branches.length) : r.branch v = r.branches[v] := by
  unfold branch
  rw [List.getD_eq_getElem?_getD, List.getElem?_eq_getElem hv, Option.getD_some]

theorem mem_branches_iff {b : Branch} : b ∈ r.branches ↔ ∃ v, v < r.size ∧ r.branch v = b := by
  constructor
  · intro hb
    obtain ⟨v, hv, rfl⟩ := List.getElem_of_mem hb
    exact ⟨v, hv, branch_eq_getElem hv⟩
  · rintro ⟨v, hv, rfl⟩
    rw [branch_eq_getElem hv]
    exact List.getElem_mem hv

theorem Sound.branch_top_lt (h : r.Sound text) (v : Nat) : (r.branch v).top < r.frames.size := by
  rcases r.branch_mem v with hb | hb
  · exact h.top_lt _ hb
  · rw [hb]
    exact h.nonempty

theorem Sound.place_in' (h : r.Sound text) (v : Nat) : (r.place v).In text :=
  h.place_in _ (h.branch_top_lt v)

theorem Sound.state_bounded (h : r.Sound text) {st : State} (hs : r.state v = some st) :
    st.Bounded :=
  h.bounded _ (h.branch_top_lt v) st hs

theorem Keeps.place (h : Keeps k r r') (hr : r.Sound text) (hu : u < k) :
    r'.place u = r.place u := by
  show (r'.frame (r'.branch u).top).place = _
  rw [h.top_eq u hu]
  exact h.place_eq _ (hr.branch_top_lt u)

theorem Keeps.state (h : Keeps k r r') (hr : r.Sound text) (hu : u < k) :
    r'.state u = r.state u := by
  show (r'.frame (r'.branch u).top).state = _
  rw [h.top_eq u hu]
  exact h.state_eq _ (hr.branch_top_lt u)

/-! ## Changing branches -/

@[simp] theorem size_setBranch (r : Reading) (v : Nat) (b : Branch) :
    (r.setBranch v b).size = r.size :=
  List.length_set

theorem branch_setBranch (hv : v < r.size) : (r.setBranch v b).branch v = b := by
  unfold branch setBranch
  rw [List.getD_eq_getElem?_getD, List.getElem?_set_self hv]
  rfl

theorem branch_setBranch_ne (h : u ≠ v) : (r.setBranch v b).branch u = r.branch u := by
  unfold branch setBranch
  rw [List.getD_eq_getElem?_getD, List.getElem?_set_ne h.symm, ← List.getD_eq_getElem?_getD]

theorem size_removeBranch (hv : v < r.size) : (r.removeBranch v).size = r.size - 1 :=
  List.length_eraseIdx_of_lt hv

theorem branch_removeBranch_lt (h : u < v) : (r.removeBranch v).branch u = r.branch u := by
  unfold branch removeBranch
  rw [List.getD_eq_getElem?_getD, List.getElem?_eraseIdx_of_lt h, ← List.getD_eq_getElem?_getD]

theorem branch_removeBranch_ge (h : v ≤ u) : (r.removeBranch v).branch u = r.branch (u + 1) := by
  unfold branch removeBranch
  rw [List.getD_eq_getElem?_getD, List.getElem?_eraseIdx_of_ge h, ← List.getD_eq_getElem?_getD]

@[simp] theorem size_addBranch (r : Reading) (b : Branch) :
    (r.addBranch b).size = r.size + 1 := by
  simp [size, addBranch]

theorem branch_addBranch_lt (h : u < r.size) : (r.addBranch b).branch u = r.branch u := by
  unfold branch addBranch
  rw [List.getD_eq_getElem?_getD, List.getElem?_append_left h, ← List.getD_eq_getElem?_getD]

theorem branch_addBranch (r : Reading) (b : Branch) : (r.addBranch b).branch r.size = b := by
  unfold branch addBranch size
  rw [List.getD_eq_getElem?_getD, List.getElem?_concat_length]
  rfl

/-- The branch stands on a frame, and if it is paused then in front of its token. -/
def BranchSound (text : List Char) (r : Reading) (b : Branch) : Prop :=
  b.top < r.frames.size ∧ ∀ t, b.status = .paused t → TokenAt text (r.frame b.top).place t

theorem Sound.branch (h : r.Sound text) (v : Nat) : r.BranchSound text (r.branch v) := by
  rcases r.branch_mem v with hb | hb
  · exact ⟨h.top_lt _ hb, h.paused _ hb⟩
  · rw [hb]
    exact ⟨h.nonempty, fun t ht => nomatch ht⟩

/-- The invariant is about frames, and about each branch on its own. -/
theorem Sound.of_branches (h : r.Sound text) (hf : r'.frames = r.frames)
    (hroot : r'.finished = r.finished)
    (hb : ∀ b ∈ r'.branches, r.BranchSound text b) : r'.Sound text := by
  have hframe : ∀ n, r'.frame n = r.frame n := fun n => by unfold frame; rw [hf]
  refine ⟨?_, ?_, ?_, ?_, ?_, ?_, ?_, ?_⟩
  · rw [hf]; exact h.nonempty
  · intro n hn; rw [hframe]; exact h.place_in n (hf ▸ hn)
  · intro n hn; rw [hframe]; exact h.bounded n (hf ▸ hn)
  · intro n hn; rw [hframe, hf]; exact h.below_lt n (hf ▸ hn)
  · intro n hn l hl; rw [hframe] at hl ⊢; rw [hframe]; exact h.joins n (hf ▸ hn) l hl
  · intro b hmem; rw [hf]; exact (hb b hmem).1
  · intro b hmem; rw [hframe]; exact (hb b hmem).2
  · rw [hroot]; exact h.root

theorem Sound.of_sublist (h : r.Sound text) (hf : r'.frames = r.frames)
    (hroot : r'.finished = r.finished) (hb : ∀ b ∈ r'.branches, b ∈ r.branches) :
    r'.Sound text :=
  h.of_branches hf hroot fun b hmem => ⟨h.top_lt b (hb b hmem), h.paused b (hb b hmem)⟩

theorem Sound.setBranch (h : r.Sound text) (hb : r.BranchSound text b) :
    (r.setBranch v b).Sound text := by
  refine h.of_branches rfl rfl fun b' hmem => ?_
  rcases List.mem_or_eq_of_mem_set hmem with hmem | rfl
  · exact ⟨h.top_lt _ hmem, h.paused _ hmem⟩
  · exact hb

theorem Sound.addBranch (h : r.Sound text) (hb : r.BranchSound text b) :
    (r.addBranch b).Sound text := by
  refine h.of_branches rfl rfl fun b' hmem => ?_
  rcases List.mem_append.mp hmem with hmem | hmem
  · exact ⟨h.top_lt _ hmem, h.paused _ hmem⟩
  · rw [List.mem_singleton.mp hmem]
    exact hb

theorem Sound.removeBranch (h : r.Sound text) (v : Nat) : (r.removeBranch v).Sound text :=
  h.of_sublist rfl rfl fun _ hmem => List.mem_of_mem_eraseIdx hmem

theorem Sound.setStatus (h : r.Sound text)
    (hs : ∀ t, s = .paused t → TokenAt text (r.place v) t) : (r.setStatus v s).Sound text :=
  h.setBranch ⟨(h.branch v).1, hs⟩

theorem keeps_setBranch_of_ge (hk : k ≤ r.size) (hv : k ≤ v) : Keeps k r (r.setBranch v b) where
  frames_le := Nat.le_refl _
  place_eq := fun _ _ => rfl
  state_eq := fun _ _ => rfl
  le_size := by rw [size_setBranch]; exact hk
  top_eq := fun u hu => by rw [branch_setBranch_ne (by omega)]
  status_eq := fun u hu => by rw [branch_setBranch_ne (by omega)]

theorem keeps_addBranch (r : Reading) (b : Branch) : Keeps r.size r (r.addBranch b) where
  frames_le := Nat.le_refl _
  place_eq := fun _ _ => rfl
  state_eq := fun _ _ => rfl
  le_size := by rw [size_addBranch]; omega
  top_eq := fun u hu => by rw [branch_addBranch_lt hu]
  status_eq := fun u hu => by rw [branch_addBranch_lt hu]

/-! ## Pushing -/

/-- The frame that a push puts on top of a branch. -/
def pushed (r : Reading) (v : Nat) (tree : Option Tree) (state : Option State) : Frame :=
  match tree with
  | none => { r.top v with state, links := [⟨(r.branch v).top, none⟩] }
  | some t =>
    { state
      place := t.facts.stop
      links := [⟨(r.branch v).top, some t⟩]
      cost := (r.top v).cost + t.facts.cost
      count := (r.top v).count + t.count
      weight := (r.top v).weight + t.facts.weight }

variable {t : Option Tree} {st : Option State}

theorem frames_push (r : Reading) (v : Nat) (t : Option Tree) (st : Option State) :
    (r.push v t st).frames = r.frames.push (r.pushed v t st) := by
  cases t <;> rfl

theorem frame_push_lt (hn : n < r.frames.size) : (r.push v t st).frame n = r.frame n := by
  unfold frame
  rw [frames_push, Array.getD_eq_getD_getElem?, Array.getElem?_push_lt hn,
    Array.getD_eq_getD_getElem?, Array.getElem?_eq_getElem hn]

theorem frame_push (r : Reading) (v : Nat) (t : Option Tree) (st : Option State) :
    (r.push v t st).frame r.frames.size = r.pushed v t st := by
  unfold frame
  rw [frames_push, Array.getD_eq_getD_getElem?, Array.getElem?_push_size]
  rfl

@[simp] theorem size_push (r : Reading) (v : Nat) (t : Option Tree) (st : Option State) :
    (r.push v t st).size = r.size := by
  cases t <;> exact size_setBranch _ _ _

theorem branch_push_ne (h : u ≠ v) : (r.push v t st).branch u = r.branch u := by
  cases t <;> exact branch_setBranch_ne h

theorem top_push (hv : v < r.size) : ((r.push v t st).branch v).top = r.frames.size := by
  unfold push
  simp only
  rw [branch_setBranch (by exact hv)]

theorem status_push (r : Reading) (u v : Nat) (t : Option Tree) (st : Option State) :
    ((r.push v t st).branch u).status = (r.branch u).status := by
  by_cases h : u = v
  · subst h
    by_cases hv : u < r.size
    · unfold push
      simp only
      rw [branch_setBranch (by exact hv)]
    · have hb : (r.push u t st).branch u = r.branch u := by
        rw [branch_of_size_le (by rw [size_push]; omega), branch_of_size_le (Nat.le_of_not_lt hv)]
      rw [hb]
  · rw [branch_push_ne h]

theorem finished_push (r : Reading) (v : Nat) (t : Option Tree) (st : Option State) :
    (r.push v t st).finished = r.finished := by
  cases t <;> rfl

theorem state_pushed (r : Reading) (v : Nat) (t : Option Tree) (st : Option State) :
    (r.pushed v t st).state = st := by
  cases t <;> rfl

theorem links_pushed (r : Reading) (v : Nat) (t : Option Tree) (st : Option State) :
    (r.pushed v t st).links = [⟨(r.branch v).top, t⟩] := by
  cases t <;> rfl

theorem place_push (hv : v < r.size) :
    (r.push v t st).place v = (r.pushed v t st).place := by
  show ((r.push v t st).frame ((r.push v t st).branch v).top).place = _
  rw [top_push hv, frame_push]

theorem state_push (hv : v < r.size) : (r.push v t st).state v = st := by
  show ((r.push v t st).frame ((r.push v t st).branch v).top).state = _
  rw [top_push hv, frame_push, state_pushed]

theorem keeps_push (hk : k ≤ r.size) (hv : k ≤ v) : Keeps k r (r.push v t st) where
  frames_le := by rw [frames_push, Array.size_push]; omega
  place_eq := fun n hn => by rw [frame_push_lt hn]
  state_eq := fun n hn => by rw [frame_push_lt hn]
  le_size := by rw [size_push]; exact hk
  top_eq := fun u hu => by rw [branch_push_ne (by omega)]
  status_eq := fun u hu => by rw [branch_push_ne (by omega)]

/-- What is pushed must join the old top with the new one. A branch that waits in front of a token
stays where it is, so nothing that has text is pushed on it. -/
theorem Sound.push (h : r.Sound text)
    (hjoin : Joins text (r.top v) (r.pushed v t st) t) (hin : (r.pushed v t st).place.In text)
    (hbounded : ∀ x, st = some x → x.Bounded)
    (hpaused : ∀ x, (r.branch v).status = .paused x → (r.pushed v t st).place = r.place v) :
    (r.push v t st).Sound text := by
  have hsize : (r.push v t st).frames.size = r.frames.size + 1 := by
    rw [frames_push, Array.size_push]
  -- every frame is an old one or the new one
  have hcases : ∀ n, n < (r.push v t st).frames.size →
      n < r.frames.size ∨ n = r.frames.size := by
    intro n hn
    omega
  have htop := h.branch_top_lt v
  have hbranch : ∀ b ∈ (r.push v t st).branches,
      b ∈ r.branches ∨ (b.top = r.frames.size ∧ b.status = (r.branch v).status) := by
    intro b hb
    unfold Reading.push at hb
    rcases List.mem_or_eq_of_mem_set hb with hb | rfl
    · exact Or.inl hb
    · exact Or.inr ⟨rfl, rfl⟩
  refine ⟨by omega, ?_, ?_, ?_, ?_, ?_, ?_, ?_⟩
  · intro n hn
    rcases hcases n hn with hn | rfl
    · rw [frame_push_lt hn]; exact h.place_in n hn
    · rw [frame_push]; exact hin
  · intro n hn
    rcases hcases n hn with hn | rfl
    · rw [frame_push_lt hn]; exact h.bounded n hn
    · rw [frame_push, state_pushed]; exact hbounded
  · intro n hn l hl
    rcases hcases n hn with hn | rfl
    · rw [frame_push_lt hn] at hl
      have := h.below_lt n hn l hl
      omega
    · rw [frame_push, links_pushed, List.mem_singleton] at hl
      rw [hl]
      show (r.branch v).top < _
      omega
  · intro n hn l hl
    rcases hcases n hn with hn | rfl
    · rw [frame_push_lt hn] at hl ⊢
      rw [frame_push_lt (h.below_lt n hn l hl)]
      exact h.joins n hn l hl
    · rw [frame_push] at hl ⊢
      rw [links_pushed, List.mem_singleton] at hl
      rw [hl, frame_push_lt htop]
      exact hjoin
  · intro b hb
    rcases hbranch b hb with hb | ⟨hb, -⟩
    · have := h.top_lt b hb
      omega
    · omega
  · intro b hb x hx
    rcases hbranch b hb with hb | ⟨hb, hstatus⟩
    · rw [frame_push_lt (h.top_lt b hb)]
      exact h.paused b hb x hx
    · rw [hb, frame_push, hpaused x (hstatus ▸ hx)]
      exact (h.branch v).2 x (hstatus ▸ hx)
  · rw [finished_push]; exact h.root

/-- A tree is pushed on a branch that does not wait for a token. -/
theorem Sound.push_tree (h : r.Sound text) {t : Tree}
    (hfits : Fits text (r.place v) (r.state v) t t.facts.stop st)
    (hbounded : ∀ x, st = some x → x.Bounded)
    (hactive : (r.branch v).status = .active) : (r.push v (some t) st).Sound text := by
  refine h.push (t := some t) hfits hfits.sound.placed.stop_in hbounded fun x hx => ?_
  rw [hactive] at hx
  cases hx

/-- The branch `v` is read on from the place `p` in the state `below`. -/
structure Stands (r : Reading) (v : Nat) (p : Place) (below : Option State) : Prop where
  lt_size : v < r.size
  active : (r.branch v).status = .active
  place_eq : r.place v = p
  state_eq : r.state v = below

variable {p q : Place} {below above : Option State}

theorem Keeps.stands (h : Keeps k r r') (hr : r.Sound text) (hs : Stands r v p below)
    (hv : v < k) : Stands r' v p below where
  lt_size := Nat.lt_of_lt_of_le hv h.le_size
  active := (h.status_eq v hv).trans hs.active
  place_eq := (h.place hr hv).trans hs.place_eq
  state_eq := (h.state hr hv).trans hs.state_eq

/-- A tree that fits takes a branch on to where it ends. -/
theorem Stands.push (hs : Stands r v p below) (h : r.Sound text) {t : Tree}
    (hfits : Fits text p below t q above) (hbounded : ∀ x, above = some x → x.Bounded) :
    (r.push v (some t) above).Sound text ∧ Stands (r.push v (some t) above) v q above
      ∧ Keeps v r (r.push v (some t) above) := by
  have hstop := hfits.stop_eq
  subst hstop
  refine ⟨h.push_tree ?_ hbounded hs.active, ⟨?_, ?_, ?_, ?_⟩, ?_⟩
  · rw [hs.place_eq, hs.state_eq]
    exact hfits
  · rw [size_push]; exact hs.lt_size
  · rw [status_push]; exact hs.active
  · rw [place_push hs.lt_size]; rfl
  · exact state_push hs.lt_size
  · exact keeps_push (Nat.le_of_lt hs.lt_size) (Nat.le_refl _)

/-- Comments and errors leave the state as it is. -/
theorem fits_extra {t : Tree} (ht : t.Sound text) (hx : t.facts.extra = true)
    (hb : t.facts.before = p) (hheld : ∀ st, above = some st → ∀ i, st.Holds i → 0 < i.dot →
      HeldBy i below) : Fits text p below t t.facts.stop above where
  sound := ht
  before_eq := hb
  stop_eq := rfl
  closed := fun hl => ht.covers_of_extra hl hx
  explains := fun st hst i hi hpos => Or.inl ⟨hx, hheld st hst i hi hpos⟩

theorem size_foldl_push (trees : List Tree) (r : Reading) (v : Nat) (st : Option State) :
    (trees.foldl (fun r t => r.push v (some t) st) r).size = r.size := by
  induction trees generalizing r with
  | nil => rfl
  | cons t trees ih => rw [List.foldl_cons, ih, size_push]

/-- A branch reads on over comments and errors, in a state that has what the one before has. -/
theorem Stands.foldl_push {trees : List Tree} (hs : Stands r v p below) (h : r.Sound text)
    (hcovers : Tree.Covers p trees q) (hsound : ∀ t ∈ trees, t.Sound text)
    (hextra : ∀ t ∈ trees, t.facts.extra = true) (hbounded : ∀ x, above = some x → x.Bounded)
    (hheld : ∀ st, above = some st → ∀ i, st.Holds i → 0 < i.dot → HeldBy i below) :
    (trees.foldl (fun r t => r.push v (some t) above) r).Sound text
      ∧ (∃ x, Stands (trees.foldl (fun r t => r.push v (some t) above) r) v q x)
      ∧ Keeps v r (trees.foldl (fun r t => r.push v (some t) above) r) := by
  induction trees generalizing r p below with
  | nil =>
    have hpq : p = q := hcovers
    exact ⟨h, ⟨below, hpq ▸ hs⟩, Keeps.refl (Nat.le_of_lt hs.lt_size)⟩
  | cons t trees ih =>
    have hfits := fits_extra (hsound t List.mem_cons_self) (hextra t List.mem_cons_self)
      hcovers.1 hheld
    obtain ⟨h1, hs1, hk1⟩ := hs.push h hfits hbounded
    obtain ⟨h2, hs2, hk2⟩ := ih hs1 h1 hcovers.2
      (fun x hx => hsound x (List.mem_cons_of_mem _ hx))
      (fun x hx => hextra x (List.mem_cons_of_mem _ hx)) fun st hst i hi _ => ⟨st, hst, hi⟩
    exact ⟨h2, hs2, hk1.trans hk2 (Nat.le_refl _)⟩

/-- A new branch stands on the frame that it is given. -/
theorem Sound.addBranch_stands (h : r.Sound text) (hn : n < r.frames.size) (c : Nat)
    (w : Option (List Waypoint)) :
    (r.addBranch ⟨n, c, .active, w⟩).Sound text
      ∧ Stands (r.addBranch ⟨n, c, .active, w⟩) r.size (r.frame n).place (r.frame n).state := by
  refine ⟨h.addBranch ⟨hn, fun _ ht => nomatch ht⟩, ?_, ?_, ?_, ?_⟩
  · rw [size_addBranch]; exact Nat.lt_succ_self _
  · rw [branch_addBranch]
  · show ((r.addBranch _).frame ((r.addBranch _).branch r.size).top).place = _
    rw [branch_addBranch]; rfl
  · show ((r.addBranch _).frame ((r.addBranch _).branch r.size).top).state = _
    rw [branch_addBranch]; rfl

/-- The reader loses its state where it stands. -/
theorem Sound.push_lost (h : r.Sound text) (v : Nat) : (r.push v none none).Sound text :=
  h.push (t := none) ⟨rfl, fun _ hx => nomatch hx⟩ (h.place_in' v) (fun _ hx => nomatch hx)
    fun _ _ => rfl

/-! ## Merging -/

/-- Only links, counts and weights differ. -/
structure Relinked (r r' : Reading) : Prop where
  frames_eq : r'.frames.size = r.frames.size
  place_eq : ∀ n, (r'.frame n).place = (r.frame n).place
  state_eq : ∀ n, (r'.frame n).state = (r.frame n).state
  branches_eq : r'.branches = r.branches
  finished_eq : r'.finished = r.finished

theorem Relinked.refl (r : Reading) : Relinked r r :=
  ⟨rfl, fun _ => rfl, fun _ => rfl, rfl, rfl⟩

theorem Relinked.trans (h : Relinked r r') (h' : Relinked r' r'') : Relinked r r'' where
  frames_eq := h'.frames_eq.trans h.frames_eq
  place_eq := fun n => (h'.place_eq n).trans (h.place_eq n)
  state_eq := fun n => (h'.state_eq n).trans (h.state_eq n)
  branches_eq := h'.branches_eq.trans h.branches_eq
  finished_eq := h'.finished_eq.trans h.finished_eq

theorem Relinked.joins (h : Relinked r r') {n m : Nat} {t : Option Tree}
    (hj : Joins text (r.frame m) (r.frame n) t) : Joins text (r'.frame m) (r'.frame n) t :=
  hj.congr (h.place_eq m) (h.state_eq m) (h.place_eq n) (h.state_eq n)

theorem Relinked.branch (h : Relinked r r') (v : Nat) : r'.branch v = r.branch v := by
  unfold Reading.branch
  rw [h.branches_eq]

theorem Relinked.size (h : Relinked r r') : r'.size = r.size := by
  unfold Reading.size
  rw [h.branches_eq]

variable {f g : Frame} {l : Link}

theorem frame_setFrame (hn : n < r.frames.size) : (r.setFrame n f).frame n = f := by
  unfold frame setFrame
  rw [Array.getD_eq_getD_getElem?, Array.getElem?_setIfInBounds_self_of_lt hn]
  rfl

theorem frame_setFrame_ne (h : m ≠ n) : (r.setFrame n f).frame m = r.frame m := by
  unfold frame setFrame
  rw [Array.getD_eq_getD_getElem?, Array.getElem?_setIfInBounds_ne h.symm,
    ← Array.getD_eq_getD_getElem?]

theorem relinked_setFrame (hn : n < r.frames.size) (hp : f.place = (r.frame n).place)
    (hs : f.state = (r.frame n).state) : Relinked r (r.setFrame n f) where
  frames_eq := Array.size_setIfInBounds
  place_eq := fun m => by
    by_cases h : m = n
    · rw [h, frame_setFrame hn, hp]
    · rw [frame_setFrame_ne h]
  state_eq := fun m => by
    by_cases h : m = n
    · rw [h, frame_setFrame hn, hs]
    · rw [frame_setFrame_ne h]
  branches_eq := rfl
  finished_eq := rfl

theorem Sound.setFrame (h : r.Sound text) (hn : n < r.frames.size)
    (hp : f.place = (r.frame n).place) (hs : f.state = (r.frame n).state)
    (hbelow : ∀ l ∈ f.links, l.below < r.frames.size)
    (hjoins : ∀ l ∈ f.links, Joins text (r.frame l.below) (r.frame n) l.tree) :
    (r.setFrame n f).Sound text := by
  have hrel := relinked_setFrame hn hp hs
  have hlinks : ∀ m, m < r.frames.size → ∀ l ∈ ((r.setFrame n f).frame m).links,
      l.below < r.frames.size ∧ Joins text (r.frame l.below) (r.frame m) l.tree := by
    intro m hm l hl
    by_cases he : m = n
    · rw [he, frame_setFrame hn] at hl
      exact ⟨hbelow l hl, he ▸ hjoins l hl⟩
    · rw [frame_setFrame_ne he] at hl
      exact ⟨h.below_lt m hm l hl, h.joins m hm l hl⟩
  refine ⟨?_, ?_, ?_, ?_, ?_, ?_, ?_, h.root⟩
  · rw [hrel.frames_eq]; exact h.nonempty
  · intro m hm; rw [hrel.place_eq]; exact h.place_in m (hrel.frames_eq ▸ hm)
  · intro m hm; rw [hrel.state_eq]; exact h.bounded m (hrel.frames_eq ▸ hm)
  · intro m hm l hl; rw [hrel.frames_eq]; exact (hlinks m (hrel.frames_eq ▸ hm) l hl).1
  · intro m hm l hl; exact hrel.joins (hlinks m (hrel.frames_eq ▸ hm) l hl).2
  · intro b hb; rw [hrel.frames_eq]; exact h.top_lt b hb
  · intro b hb; rw [hrel.place_eq]; exact h.paused b hb

/-- Frames that are similar are in the same state at the same place. -/
theorem similar_place (h : r.Sound text) (hn : n < r.frames.size) (hm : m < r.frames.size)
    (hs : similar (r.frame n) (r.frame m) = true) : (r.frame n).place = (r.frame m).place := by
  unfold similar at hs
  rw [Bool.and_eq_true, Bool.and_eq_true, beq_iff_eq] at hs
  exact Place.eq_of_offset (h.place_in n hn) (h.place_in m hm) hs.1.1

theorem similar_state (hs : similar f g = true) {x : State} (hx : f.state = some x) :
    ∃ y, g.state = some y ∧ y.items = x.items := by
  unfold similar at hs
  rw [Bool.and_eq_true, hx] at hs
  cases hy : g.state with
  | none =>
    rw [hy] at hs
    cases hs.2
  | some y =>
    rw [hy] at hs
    have hitems : (x.items == y.items) = true := hs.2
    exact ⟨y, rfl, (beq_iff_eq.mp hitems).symm⟩

/-- What joins one frame joins every frame that is similar to it. -/
theorem Joins.of_similar {g' : Frame} {t : Option Tree} (h : Joins text g f t)
    (hp : g'.place = f.place) (hs : similar g' f = true) : Joins text g g' t := by
  cases t with
  | none =>
    refine ⟨h.1.trans hp.symm, ?_⟩
    intro x hx i hi
    obtain ⟨y, hy, hitems⟩ := similar_state hs hx
    refine h.2 y hy i ?_
    unfold State.Holds
    rw [hitems]
    exact hi
  | some t =>
    refine ⟨h.sound, h.before_eq, h.stop_eq.trans hp.symm, h.closed, ?_⟩
    intro x hx i hi
    obtain ⟨y, hy, hitems⟩ := similar_state hs hx
    refine h.explains y hy i ?_
    unfold State.Holds
    rw [hitems]
    exact hi

/-- A frame may get a further link that joins it. -/
theorem Sound.relink (h : r.Sound text) (hn : n < r.frames.size)
    (hbelow : l.below < r.frames.size) (hjoin : Joins text (r.frame l.below) (r.frame n) l.tree)
    (hp : f.place = (r.frame n).place) (hs : f.state = (r.frame n).state)
    (hlinks : ∀ x ∈ f.links, x ∈ (r.frame n).links ∨ x = l) :
    (r.setFrame n f).Sound text ∧ Relinked r (r.setFrame n f) := by
  refine ⟨h.setFrame hn hp hs ?_ ?_, relinked_setFrame hn hp hs⟩
  · intro x hx
    rcases hlinks x hx with hx | rfl
    · exact h.below_lt n hn x hx
    · exact hbelow
  · intro x hx
    rcases hlinks x hx with hx | rfl
    · exact h.joins n hn x hx
    · exact hjoin

/-- Links are added one after the other. Each step keeps what is true of the reading. -/
theorem foldl_links {P : Reading → Prop} (R : Reading → Reading → Prop)
    {step : Reading → Link → Reading} {links : List Link}
    (htrans : ∀ {x y z}, R x y → R y z → R x z)
    (hstep : ∀ x, ∀ l ∈ links, P x → R r x → P (step x l) ∧ R x (step x l))
    {x : Reading} (hx : P x) (hrel : R r x) : P (links.foldl step x) ∧ R r (links.foldl step x) := by
  induction links generalizing x with
  | nil => exact ⟨hx, hrel⟩
  | cons l links ih =>
    obtain ⟨hs, hr⟩ := hstep x l List.mem_cons_self hx hrel
    exact ih (fun y l' hl' => hstep y l' (List.mem_cons_of_mem _ hl')) hs (htrans hrel hr)

theorem getD_of_findIdx? {α : Type} [Inhabited α] {q : α → Bool} {xs : List α} {i : Nat}
    (h : xs.findIdx? q = some i) : xs.getD i default ∈ xs ∧ q (xs.getD i default) = true := by
  obtain ⟨hlt, hq, -⟩ := List.findIdx?_eq_some_iff_getElem.mp h
  rw [List.getD_eq_getElem?_getD, List.getElem?_eq_getElem hlt, Option.getD_some]
  exact ⟨List.getElem_mem hlt, hq⟩

theorem addLink_sound (fuel : Nat) : ∀ {r : Reading} {n : Nat} {link : Link}, r.Sound text →
    n < r.frames.size → link.below < r.frames.size →
    Joins text (r.frame link.below) (r.frame n) link.tree →
    (addLink fuel r n link).Sound text ∧ Relinked r (addLink fuel r n link) := by
  induction fuel with
  | zero => intro r n link h _ _ _; exact ⟨h, Relinked.refl r⟩
  | succ fuel ih =>
    intro r n link h hn hbelow hjoin
    rw [addLink]
    split
    · exact ⟨h, Relinked.refl r⟩
    · extract_lets f lower added fits
      split
      · next i hi =>
        extract_lets old
        obtain ⟨hold, hfits⟩ : old ∈ f.links ∧ fits old = true := getD_of_findIdx? hi
        have holdlt := h.below_lt n hn old hold
        split
        · split
          · exact h.relink hn hbelow hjoin rfl rfl fun x hx => List.mem_or_eq_of_mem_set hx
          · exact ⟨h, Relinked.refl r⟩
        · next hne =>
          have hsim : similar (r.frame old.below) lower = true := by
            have hor := (Bool.and_eq_true _ _ ▸ hfits).2
            rcases (Bool.or_eq_true _ _ ▸ hor) with h1 | h1
            · exact absurd h1 hne
            · exact h1
          have hplace := similar_place h holdlt hbelow hsim
          -- the links of the lower frame also join the one that is similar to it
          have hstep : ∀ x, ∀ l ∈ lower.links, x.Sound text → Relinked r x →
              (addLink fuel x old.below l).Sound text
                ∧ Relinked x (addLink fuel x old.below l) := fun x l hl hx hrel =>
            ih hx (by rw [hrel.frames_eq]; exact holdlt)
              (by rw [hrel.frames_eq]; exact h.below_lt _ hbelow l hl)
              (hrel.joins (Joins.of_similar (h.joins _ hbelow l hl) hplace hsim))
          obtain ⟨hs, hrel⟩ := foldl_links Relinked Relinked.trans hstep h (Relinked.refl r)
          have hn' := hrel.frames_eq.symm ▸ hn
          exact ⟨hs.setFrame hn' rfl rfl (hs.below_lt n hn') (hs.joins n hn'),
            hrel.trans (relinked_setFrame hn' rfl rfl)⟩
      · split
        · exact ⟨h, Relinked.refl r⟩
        · refine h.relink hn hbelow hjoin rfl rfl fun x hx => ?_
          rcases List.mem_append.mp hx with hx | hx
          · exact Or.inl hx
          · exact Or.inr (List.mem_singleton.mp hx)

/-- The branch `w` is gone, and the others stand where they stood. -/
structure Drops (w : Nat) (r r' : Reading) : Prop where
  lt_size : w < r.size
  size_eq : r'.size = r.size - 1
  frames_eq : r'.frames.size = r.frames.size
  place_eq : ∀ n, (r'.frame n).place = (r.frame n).place
  state_eq : ∀ n, (r'.frame n).state = (r.frame n).state
  top_lt : ∀ u, u < w → (r'.branch u).top = (r.branch u).top
  status_lt : ∀ u, u < w → (r'.branch u).status = (r.branch u).status
  top_ge : ∀ u, w ≤ u → (r'.branch u).top = (r.branch (u + 1)).top
  status_ge : ∀ u, w ≤ u → (r'.branch u).status = (r.branch (u + 1)).status

theorem drops_removeBranch (hv : v < r.size) : Drops v r (r.removeBranch v) where
  lt_size := hv
  size_eq := size_removeBranch hv
  frames_eq := rfl
  place_eq := fun _ => rfl
  state_eq := fun _ => rfl
  top_lt := fun u hu => by rw [branch_removeBranch_lt hu]
  status_lt := fun u hu => by rw [branch_removeBranch_lt hu]
  top_ge := fun u hu => by rw [branch_removeBranch_ge hu]
  status_ge := fun u hu => by rw [branch_removeBranch_ge hu]

theorem Drops.keeps {w : Nat} (h : Drops w r r') : Keeps w r r' where
  frames_le := Nat.le_of_eq h.frames_eq.symm
  place_eq := fun n _ => h.place_eq n
  state_eq := fun n _ => h.state_eq n
  le_size := by have := h.lt_size; rw [h.size_eq]; omega
  top_eq := h.top_lt
  status_eq := h.status_lt

theorem Drops.place_lt {w : Nat} (h : Drops w r r') (hu : u < w) : r'.place u = r.place u := by
  show (r'.frame (r'.branch u).top).place = (r.frame (r.branch u).top).place
  rw [h.place_eq, h.top_lt u hu]

theorem Drops.place_ge {w : Nat} (h : Drops w r r') (hu : w ≤ u) :
    r'.place u = r.place (u + 1) := by
  show (r'.frame (r'.branch u).top).place = (r.frame (r.branch (u + 1)).top).place
  rw [h.place_eq, h.top_ge u hu]

theorem lt_size_of_isActive (h : r.isActive v = true) : v < r.size := by
  refine Nat.lt_of_not_le fun hle => ?_
  unfold isActive Reading.branch at h
  rw [List.getD_eq_getElem?_getD, List.getElem?_eq_none hle] at h
  cases h

/-- Changing the count at the last error does not move a branch. -/
theorem branch_setBranch_same (hb : b.top = (r.branch v).top)
    (hs : b.status = (r.branch v).status) (u : Nat) :
    ((r.setBranch v b).branch u).top = (r.branch u).top
      ∧ ((r.setBranch v b).branch u).status = (r.branch u).status := by
  by_cases hu : u = v
  · subst hu
    by_cases hlt : u < r.size
    · rw [branch_setBranch hlt]
      exact ⟨hb, hs⟩
    · have hset : r.setBranch u b = r := by
        unfold setBranch
        rw [List.set_eq_of_length_le (Nat.le_of_not_lt hlt)]
      rw [hset]
      exact ⟨rfl, rfl⟩
  · rw [branch_setBranch_ne hu]
    exact ⟨rfl, rfl⟩

theorem Stands.setBranch (hs : Stands r v p below) (hb : b.top = (r.branch v).top)
    (hb' : b.status = (r.branch v).status) : Stands (r.setBranch v b) v p below := by
  obtain ⟨htop, hstatus⟩ := branch_setBranch_same hb hb' v
  refine ⟨by rw [size_setBranch]; exact hs.lt_size, hstatus.trans hs.active, ?_, ?_⟩
  · show (r.frame _).place = p
    rw [htop]
    exact hs.place_eq
  · show (r.frame _).state = below
    rw [htop]
    exact hs.state_eq

theorem merge?_sound {w : Nat} (h : r.Sound text) (hm : r.merge? v w = some r') :
    r'.Sound text ∧ Drops w r r' := by
  unfold merge? at hm
  split at hm
  · next hcan =>
    rw [canMerge, Bool.and_eq_true, Bool.and_eq_true] at hcan
    obtain ⟨⟨-, hw⟩, hsim⟩ := hcan
    extract_lets n merged b b' at hm
    have hv := h.branch_top_lt v
    have hw' := h.branch_top_lt w
    have hplace := similar_place h hv hw' hsim
    -- what joins the top of `w` also joins the top of `v`, which is similar
    have hstep : ∀ x, ∀ l ∈ (r.top w).links, x.Sound text → Relinked r x →
        (addLink (x.frames.size + 1) x n l).Sound text
          ∧ Relinked x (addLink (x.frames.size + 1) x n l) := fun x l hl hx hrel =>
      addLink_sound _ hx (by rw [hrel.frames_eq]; exact hv)
        (by rw [hrel.frames_eq]; exact h.below_lt _ hw' l hl)
        (hrel.joins (Joins.of_similar (h.joins _ hw' l hl) hplace hsim))
    obtain ⟨hs, hrel⟩ : merged.Sound text ∧ Relinked r merged :=
      foldl_links Relinked Relinked.trans hstep h (Relinked.refl r)
    have hb' : b'.top = b.top ∧ b'.status = b.status := by
      show (if _ then _ else _ : Branch).top = _ ∧ (if _ then _ else _ : Branch).status = _
      split <;> exact ⟨rfl, rfl⟩
    have hbs : merged.BranchSound text b' := by
      unfold BranchSound
      rw [hb'.1, hb'.2]
      exact hs.branch v
    have hset := hs.setBranch (v := v) hbs
    have hsame := branch_setBranch_same (r := merged) (v := v) hb'.1 hb'.2
    have hlt : w < (merged.setBranch v b').size := by
      rw [size_setBranch, hrel.size]
      exact lt_size_of_isActive hw
    have hdrop := drops_removeBranch hlt
    cases hm
    refine ⟨hset.removeBranch w, ?_⟩
    exact
      { lt_size := lt_size_of_isActive hw
        size_eq := by rw [hdrop.size_eq, size_setBranch, hrel.size]
        frames_eq := hrel.frames_eq
        place_eq := hrel.place_eq
        state_eq := hrel.state_eq
        top_lt := fun u hu => by rw [hdrop.top_lt u hu, (hsame u).1, hrel.branch]
        status_lt := fun u hu => by rw [hdrop.status_lt u hu, (hsame u).2, hrel.branch]
        top_ge := fun u hu => by rw [hdrop.top_ge u hu, (hsame _).1, hrel.branch]
        status_ge := fun u hu => by rw [hdrop.status_ge u hu, (hsame _).2, hrel.branch] }
  · cases hm

theorem mergeFirst?_sound {vs : List Nat} {w : Nat} (h : r.Sound text)
    (hm : r.mergeFirst? vs w = some r') : r'.Sound text ∧ Drops w r r' := by
  obtain ⟨v, -, hv⟩ := List.exists_of_findSome?_eq_some hm
  exact merge?_sound h hv

end Reading

end SpanIndex.Syntax
