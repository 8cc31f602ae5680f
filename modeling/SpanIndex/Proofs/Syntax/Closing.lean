import Mathlib.Data.List.TakeWhile
import SpanIndex.Proofs.Syntax.Stack

/-!
# Closing a production

The trees of a production are found by walking down from the top of a branch. Each way down covers the
text between the frame it leads to and the top (`Way`), and if the state on top has read a whole
production then the parts on the way are the symbols of that production (`Collects`), because every link
accounts for a mark. So what `reduce` builds is a phrase, and the new branch stands where the old one
does.
-/

namespace SpanIndex.Syntax.Reading

variable {text : List Char} {r r' : Reading} {v : Nat}

/-! ## Ways down -/

section Walk

variable {σ : Type} {frames : Array Frame} {look : σ → Path → σ × Bool} {P : Path → Prop}
  {Q : σ → Prop}

/-- The path is fine and goes on. -/
def GoesOn (look : σ → Path → σ × Bool) (P : Path → Prop) (Q : σ → Prop) (p : Path) : Prop :=
  P p ∧ ∃ acc, Q acc ∧ (look acc p).2 = false

theorem foldl_visit (hlook : ∀ acc p, Q acc → P p → Q (look acc p).1) :
    ∀ (paths : List Path) (seen : σ × List Path), (∀ p ∈ paths, P p) → Q seen.1 →
      (∀ p ∈ seen.2, GoesOn look P Q p) →
      Q (paths.foldl (visit look) seen).1
        ∧ ∀ p ∈ (paths.foldl (visit look) seen).2, GoesOn look P Q p := by
  intro paths
  induction paths with
  | nil => intro seen _ hacc hgoing; exact ⟨hacc, hgoing⟩
  | cons p paths ih =>
    intro seen hP hacc hgoing
    have hp := hP p List.mem_cons_self
    refine ih _ (fun q hq => hP q (List.mem_cons_of_mem _ hq)) (hlook _ p hacc hp) ?_
    intro q hq
    simp only [visit] at hq
    split at hq
    · exact hgoing q hq
    · next hstop =>
      rcases List.mem_cons.mp hq with rfl | hq
      · exact ⟨hp, _, hacc, Bool.not_eq_true _ ▸ hstop⟩
      · exact hgoing q hq

theorem mem_onward {paths : List Path} {q : Path} (h : q ∈ onward frames paths) :
    ∃ p ∈ paths, ∃ l ∈ (frames.getD p.node default).links, q = p.follow l := by
  rcases List.mem_append.mp h with h | h
  · obtain ⟨p, hp, hq⟩ := List.mem_filterMap.mp h
    obtain ⟨l, hl, rfl⟩ := Option.map_eq_some_iff.mp hq
    exact ⟨p, hp, l, List.mem_of_head? hl, rfl⟩
  · obtain ⟨p, hp, hq⟩ := List.mem_flatMap.mp h
    obtain ⟨l, hl, rfl⟩ := List.mem_map.mp hq
    exact ⟨p, hp, l, List.mem_of_mem_drop hl, rfl⟩

/-- What holds at the beginning of a walk and is kept by following a link holds of every path, and so
whatever `look` makes of such paths holds of the result. -/
theorem walk_induction (hlook : ∀ acc p, Q acc → P p → Q (look acc p).1)
    (hfollow : ∀ p, GoesOn look P Q p → ∀ l ∈ (frames.getD p.node default).links, P (p.follow l)) :
    ∀ (fuel : Nat) (paths : List Path) (acc : σ), (∀ p ∈ paths, P p) → Q acc →
      Q (walk frames look fuel paths acc) := by
  intro fuel
  induction fuel with
  | zero => intro paths acc _ hacc; rw [walk]; exact hacc
  | succ fuel ih =>
    intro paths acc hP hacc
    cases paths with
    | nil => rw [walk]; exact hacc; simp
    | cons p paths =>
      rw [walk]
      · obtain ⟨hacc', hgoing⟩ := foldl_visit hlook (p :: paths) (acc, []) hP hacc (by simp)
        refine ih _ _ ?_ hacc'
        intro q hq
        obtain ⟨p', hp', l, hl, rfl⟩ := mem_onward hq
        exact hfollow p' (hgoing p' (List.mem_reverse.mp hp')) l hl
      · simp

end Walk

/-! ## Slices -/

theorem mem_addSlice {slices : List (Nat × List (List Tree))} {node : Nat} {trees : List Tree}
    {s : Nat × List (List Tree)} (h : s ∈ addSlice slices node trees) :
    s ∈ slices ∨ (s.1 = node ∧ ∃ old, s.2 = old ++ [trees]
      ∧ (old = [] ∨ (node, old) ∈ slices)) := by
  unfold addSlice at h
  split at h
  · obtain ⟨⟨n, alternatives⟩, hmem, heq⟩ := List.mem_map.mp h
    cases heq
    by_cases hn : n = node
    · subst hn
      exact Or.inr ⟨rfl, alternatives, by simp, Or.inr hmem⟩
    · left
      simpa [hn] using hmem
  · rcases List.mem_append.mp h with h | h
    · exact Or.inl h
    · rw [List.mem_singleton.mp h]
      exact Or.inr ⟨rfl, [], rfl, Or.inl rfl⟩

/-- What is kept on the way down holds of every slice. -/
theorem slices_induction {depth : Nat} {P : Path → Prop}
    (hstart : P ⟨(r.branch v).top, [], 0⟩)
    (hfollow : ∀ p, P p → p.depth ≠ depth → ∀ l ∈ (r.frame p.node).links, P (p.follow l))
    {s : Nat × List (List Tree)} (hs : s ∈ r.slices v depth) :
    s.2 ≠ [] ∧ ∀ trees ∈ s.2, P ⟨s.1, trees, depth⟩ := by
  have hwalk : ∀ s ∈ r.slices v depth, s.2 ≠ [] ∧ ∀ trees ∈ s.2, P ⟨s.1, trees, depth⟩ := by
    refine walk_induction (P := P)
      (Q := fun (acc : List (Nat × List (List Tree))) =>
        ∀ s ∈ acc, s.2 ≠ [] ∧ ∀ trees ∈ s.2, P ⟨s.1, trees, depth⟩) ?_ ?_ _ _ _ ?_ ?_
    · intro acc p hacc hp s hs
      split at hs
      · next hd =>
        rcases mem_addSlice hs with hs | ⟨hnode, old, hold, hor⟩
        · exact hacc s hs
        · rw [hold, hnode]
          refine ⟨by simp, ?_⟩
          intro trees ht
          rcases List.mem_append.mp ht with ht | ht
          · rcases hor with rfl | hmem
            · cases ht
            · exact (hacc _ hmem).2 trees ht
          · rw [List.mem_singleton.mp ht, ← beq_iff_eq.mp hd]
            exact hp
      · exact hacc s hs
    · rintro p ⟨hp, acc, -, hgo⟩
      refine hfollow p hp ?_
      intro hd
      simp [hd] at hgo
    · intro p hp
      rw [List.mem_singleton.mp hp]
      exact hstart
    · intro s hs
      cases hs
  exact hwalk s hs

/-! ## What lies on a way -/

/-- The trees on a path cover the text from the frame that it leads to up to the place `q`. -/
structure Way (text : List Char) (r : Reading) (q : Place) (p : Path) : Prop where
  node_lt : p.node < r.frames.size
  covers : Tree.Covers (r.frame p.node).place p.trees q
  sound : ∀ t ∈ p.trees, t.Sound text

variable {p : Path} {l : Link} {q : Place}

theorem way_start (h : r.Sound text) (v : Nat) :
    Way text r (r.place v) ⟨(r.branch v).top, [], 0⟩ :=
  ⟨h.branch_top_lt v, rfl, by simp⟩

theorem Way.follow (hp : Way text r q p) (h : r.Sound text)
    (hl : l ∈ (r.frame p.node).links) : Way text r q (p.follow l) := by
  have hjoin := h.joins _ hp.node_lt l hl
  have hlt := h.below_lt _ hp.node_lt l hl
  unfold Path.follow
  cases ht : l.tree with
  | none =>
    rw [ht] at hjoin
    refine ⟨hlt, ?_, hp.sound⟩
    show Tree.Covers (r.frame l.below).place p.trees q
    rw [hjoin.1]
    exact hp.covers
  | some t =>
    rw [ht] at hjoin
    refine ⟨hlt, ⟨hjoin.before_eq, ?_⟩, ?_⟩
    · rw [hjoin.stop_eq]
      exact hp.covers
    · intro x hx
      rcases List.mem_cons.mp hx with rfl | hx
      · exact hjoin.sound
      · exact hp.sound x hx

/-- The trees on a path are the last parts of the production `k`, as many as the path is deep, and the
state at its end has the parts before them. -/
structure Collects (r : Reading) (k : Nat) (p : Path) : Prop where
  depth_le : p.depth ≤ (Grammar.production k).steps.size
  parts_eq : Tree.parts p.trees
    = (Grammar.production k).labels.drop ((Grammar.production k).steps.size - p.depth)
  held : p.depth < (Grammar.production k).steps.size →
    HeldBy ⟨k, (Grammar.production k).steps.size - p.depth⟩ (r.frame p.node).state
  first : p.depth = (Grammar.production k).steps.size →
    ∀ t, p.trees.head? = some t → t.facts.extra = false

variable {k : Nat} {p' : Place}

theorem collects_start {st : State} (hst : r.state v = some st) (hc : st.Closes k) :
    Collects r k ⟨(r.branch v).top, [], 0⟩ where
  depth_le := Nat.zero_le _
  parts_eq := by
    show [] = _
    rw [Nat.sub_zero, List.drop_of_length_le]
    simp [Production.labels]
  held := fun hlt => by
    simp only [Nat.sub_zero] at hlt ⊢
    rcases hc with hc | hc
    · exact ⟨st, hst, hc⟩
    · rw [hc] at hlt
      exact absurd hlt (Nat.not_lt_zero _)
  first := fun _ t ht => by cases ht

theorem drop_labels {rule : Production} {d : Nat} {s : Symbol} (hd : 0 < d)
    (hs : (rule.steps[d - 1]?).map (·.symbol) = some s) :
    rule.labels.drop (d - 1) = .symbol s :: rule.labels.drop d := by
  obtain ⟨step, hstep, rfl⟩ := Option.map_eq_some_iff.mp hs
  obtain ⟨hlt, hget⟩ := Array.getElem?_eq_some_iff.mp hstep
  have hlen : d - 1 < rule.labels.length := by
    rw [Production.labels, List.length_map, Array.length_toList]
    exact hlt
  rw [List.drop_eq_getElem_cons hlen, Nat.sub_add_cancel hd]
  simp only [Production.labels, List.getElem_map, Array.getElem_toList, hget]

/-- Every link on the way accounts for the mark of the production, so it is an extra or the part before
the mark. -/
theorem Collects.follow (hp : Collects r k p) (h : r.Sound text) (hn : p.node < r.frames.size)
    (hd : p.depth ≠ (Grammar.production k).steps.size) (hl : l ∈ (r.frame p.node).links) :
    Collects r k (p.follow l) := by
  have hlt : p.depth < (Grammar.production k).steps.size :=
    Nat.lt_of_le_of_ne hp.depth_le hd
  obtain ⟨st, hst, hheld⟩ := hp.held hlt
  have hpos : 0 < (Grammar.production k).steps.size - p.depth := Nat.sub_pos_of_lt hlt
  have hjoin := h.joins _ hn l hl
  unfold Path.follow
  cases ht : l.tree with
  | none =>
    rw [ht] at hjoin
    exact absurd (hjoin.2 st hst _ hheld) (Nat.ne_of_gt hpos)
  | some t =>
    rw [ht] at hjoin
    rcases hjoin.explains st hst _ hheld hpos with ⟨hx, hbelow⟩ | ⟨hx, ⟨s, hs, hlabel⟩, hbelow⟩
    · have hparts : Tree.parts (t :: p.trees) = Tree.parts p.trees := by
        simp [Tree.parts, hx]
      simp only [hx, if_true]
      exact ⟨hp.depth_le, hparts.trans hp.parts_eq, fun _ => hbelow, fun he => absurd he hd⟩
    · have hparts : Tree.parts (t :: p.trees) = .symbol s :: Tree.parts p.trees := by
        simp [Tree.parts, hx, hlabel]
      have hsub : (Grammar.production k).steps.size - (p.depth + 1)
          = (Grammar.production k).steps.size - p.depth - 1 := by omega
      have hdrop : (Grammar.production k).labels.drop
          ((Grammar.production k).steps.size - p.depth - 1) = .symbol s
            :: (Grammar.production k).labels.drop ((Grammar.production k).steps.size - p.depth) :=
        drop_labels hpos hs
      simp only [hx, Bool.false_eq_true, if_false]
      refine ⟨hlt, ?_, ?_, ?_⟩
      · rw [hparts, hp.parts_eq, hsub, hdrop]
      · intro hlt'
        have := hbelow (show 1 < (Grammar.production k).steps.size - p.depth by
          simp only at hlt'; omega)
        simp only [hsub]
        exact this
      · intro _ x hx'
        cases hx'
        exact hx

/-- All ways to take the symbols of a closed production off a branch. -/
theorem slices_reduce (h : r.Sound text) {st : State} (hst : r.state v = some st)
    (hc : st.Closes k) {s : Nat × List (List Tree)}
    (hs : s ∈ r.slices v (Grammar.production k).steps.size) :
    s.2 ≠ [] ∧ ∀ trees ∈ s.2,
      Way text r (r.place v) ⟨s.1, trees, (Grammar.production k).steps.size⟩
        ∧ Collects r k ⟨s.1, trees, (Grammar.production k).steps.size⟩ :=
  slices_induction (P := fun p => Way text r (r.place v) p ∧ Collects r k p)
    ⟨way_start h v, collects_start hst hc⟩
    (fun _ hp hd _ hl => ⟨hp.1.follow h hl, hp.2.follow h hp.1.node_lt hd hl⟩) hs

/-- All ways to take some trees off a branch. -/
theorem slices_ways (h : r.Sound text) {depth : Nat} {s : Nat × List (List Tree)}
    (hs : s ∈ r.slices v depth) :
    s.2 ≠ [] ∧ ∀ trees ∈ s.2, Way text r (r.place v) ⟨s.1, trees, depth⟩ :=
  slices_induction (P := Way text r (r.place v)) (way_start h v)
    (fun _ hp _ _ hl => hp.follow h hl) hs

theorem way_headD (h : r.Sound text) {depth node : Nat} {alternatives : List (List Tree)}
    (hs : (node, alternatives) ∈ r.slices v depth) :
    Way text r (r.place v) ⟨node, alternatives.headD [], depth⟩ := by
  obtain ⟨hne, hways⟩ := slices_ways h hs
  cases alternatives with
  | nil => exact absurd rfl hne
  | cons trees others => exact hways trees List.mem_cons_self

/-! ## New branches -/

/-- The branches from `k` on are new, and are all read on from the place `q`. -/
structure Grows (k : Nat) (q : Place) (r r' : Reading) : Prop where
  keeps : Keeps k r r'
  active : ∀ u, k ≤ u → u < r'.size → (r'.branch u).status = .active
  place_eq : ∀ u, k ≤ u → u < r'.size → r'.place u = q

theorem Grows.refl (r : Reading) (q : Place) : Grows r.size q r r where
  keeps := Keeps.refl (Nat.le_refl _)
  active := fun _ h h' => absurd h' (Nat.not_lt.mpr h)
  place_eq := fun _ h h' => absurd h' (Nat.not_lt.mpr h)

theorem Grows.trans {r'' : Reading} (h : Grows k q r r') (hr : r'.Sound text)
    (h' : Grows r'.size q r' r'') : Grows k q r r'' where
  keeps := h.keeps.trans h'.keeps h.keeps.le_size
  active := fun u hk hu => by
    by_cases hlt : u < r'.size
    · rw [h'.keeps.status_eq u hlt]; exact h.active u hk hlt
    · exact h'.active u (Nat.le_of_not_lt hlt) hu
  place_eq := fun u hk hu => by
    by_cases hlt : u < r'.size
    · rw [h'.keeps.place hr hlt]; exact h.place_eq u hk hlt
    · exact h'.place_eq u (Nat.le_of_not_lt hlt) hu

/-! ## Building the phrase -/

theorem splitTrailing_append (ts : List Tree) :
    (Tree.splitTrailing ts).1 ++ (Tree.splitTrailing ts).2 = ts := by
  unfold Tree.splitTrailing
  extract_lets trailing
  have hsuffix : trailing <:+ ts := by
    have hpre := List.takeWhile_prefix (l := ts.reverse) (fun t => t.facts.extra)
    rw [← List.reverse_suffix, List.reverse_reverse] at hpre
    exact hpre
  obtain ⟨front, hfront⟩ := hsuffix
  have hlen : ts.length - trailing.length = front.length := by
    rw [← hfront, List.length_append]
    omega
  simp only [hlen]
  rw [← hfront, List.take_left]

theorem extra_of_mem_splitTrailing {ts : List Tree} {t : Tree}
    (h : t ∈ (Tree.splitTrailing ts).2) : t.facts.extra = true := by
  have hall := List.all_takeWhile (l := ts.reverse) (p := fun t => t.facts.extra)
  exact List.all_eq_true.mp hall t (List.mem_reverse.mp h)

theorem fst_splitTrailing (ts : List Tree) :
    (Tree.splitTrailing ts).1 = (ts.reverse.dropWhile fun t => t.facts.extra).reverse := by
  have happ := splitTrailing_append ts
  have hrev : (ts.reverse.dropWhile fun t => t.facts.extra).reverse
      ++ (Tree.splitTrailing ts).2 = ts := by
    show _ ++ (ts.reverse.takeWhile fun t => t.facts.extra).reverse = ts
    rw [← List.reverse_append, List.takeWhile_append_dropWhile, List.reverse_reverse]
  exact List.append_cancel_right (happ.trans hrev.symm)

/-- Before the comments and errors at the end stands the last tree that is none. -/
theorem getLast?_splitTrailing (ts : List Tree) :
    (Tree.splitTrailing ts).1.getLast? = (ts.filter fun t => !t.facts.extra).getLast? := by
  rw [fst_splitTrailing, List.getLast?_reverse, List.getLast?_eq_head?_reverse,
    ← List.filter_reverse, List.head?_filter, List.find?_not_eq_head?_dropWhile]

theorem parts_append (ts us : List Tree) :
    Tree.parts (ts ++ us) = Tree.parts ts ++ Tree.parts us := by
  simp [Tree.parts]

theorem parts_of_extra {ts : List Tree} (h : ∀ t ∈ ts, t.facts.extra = true) :
    Tree.parts ts = [] := by
  rw [Tree.parts, List.filter_eq_nil_iff.mpr]
  · rfl
  · intro t ht
    simp [h t ht]

theorem parts_splitTrailing (ts : List Tree) :
    Tree.parts (Tree.splitTrailing ts).1 = Tree.parts ts := by
  have h := parts_append (Tree.splitTrailing ts).1 (Tree.splitTrailing ts).2
  rw [splitTrailing_append, parts_of_extra (fun t => extra_of_mem_splitTrailing),
    List.append_nil] at h
  exact h.symm

theorem choosePhrase_cases {make : List Tree → Tree} {phrase : Tree} {trailing : List Tree} :
    ∀ {alternatives : List (List Tree)} {best : Option (Tree × List Tree)},
    choosePhrase make alternatives best = some (phrase, trailing) →
    best = some (phrase, trailing) ∨ ∃ trees ∈ alternatives,
      phrase = make (Tree.splitTrailing trees).1 ∧ trailing = (Tree.splitTrailing trees).2
  | [], best, h => Or.inl h
  | trees :: others, best, h => by
    rw [choosePhrase] at h
    rcases choosePhrase_cases h with h | ⟨ts, hts, heq⟩
    · have hthis : (phrase, trailing)
            = (make (Tree.splitTrailing trees).1, (Tree.splitTrailing trees).2)
          ∨ best = some (phrase, trailing) := by
        cases best with
        | none => exact Or.inl (Option.some.inj h).symm
        | some b =>
          simp only at h
          split at h
          · exact Or.inl (Option.some.inj h).symm
          · exact Or.inr h
      rcases hthis with h | h
      · cases h
        exact Or.inr ⟨trees, List.mem_cons_self, rfl, rfl⟩
      · exact Or.inl h
    · exact Or.inr ⟨ts, List.mem_cons_of_mem _ hts, heq⟩

/-- A phrase that a state can be advanced by leads from that state to the next one. -/
theorem fits_advance {below : State} {next : State} {s : Symbol} {t : Tree}
    (hadv : below.advance s = some next) (ht : t.Sound text) (hb : t.facts.before = p')
    (hl : t.facts.label = .symbol s) (hx : t.facts.extra = false) :
    Fits text p' (some below) t t.facts.stop (some next) where
  sound := ht
  before_eq := hb
  stop_eq := rfl
  closed := fun h => by rw [hl] at h; cases h
  explains := fun st hst i hi _ => by
    cases hst
    obtain ⟨-, hs, hback⟩ := State.holds_advance hadv hi
    exact Or.inr ⟨hx, ⟨s, hs, hl⟩, fun h1 => ⟨below, rfl, hback h1⟩⟩

/-- The trees of a slice, without the comments behind them, make a phrase of the production. -/
theorem fits_phrase {node : Nat} {trees : List Tree} {below next : State} (h : r.Sound text)
    (hway : Way text r q ⟨node, trees, (Grammar.production k).steps.size⟩)
    (hcol : Collects r k ⟨node, trees, (Grammar.production k).steps.size⟩)
    (hadv : below.advance (.category (Grammar.production k).head) = some next) (weight : Int) :
    ∃ q', Fits text (r.frame node).place (some below)
        ((Tree.build (.symbol (.category (Grammar.production k).head)) (some k)
          (r.frame node).place (Tree.splitTrailing trees).1).addWeight weight) q' (some next)
      ∧ Tree.Covers q' (Tree.splitTrailing trees).2 q := by
  have happ := splitTrailing_append trees
  have hcov : Tree.Covers (r.frame node).place trees q := hway.covers
  rw [← happ, Tree.covers_append] at hcov
  obtain ⟨q', hinner, htrail⟩ := hcov
  have hparts : Tree.parts (Tree.splitTrailing trees).1 = (Grammar.production k).labels := by
    have hall := hcol.parts_eq
    simp only [Nat.sub_self, List.drop_zero] at hall
    exact (parts_splitTrailing trees).trans hall
  have hfirst : ∀ c, (Tree.splitTrailing trees).1.head? = some c → c.facts.extra = false := by
    intro c hc
    have hfirst := hcol.first
    simp only [forall_const] at hfirst
    refine hfirst c ?_
    rw [← happ, List.head?_append, hc]
    rfl
  have hphrase := Tree.sound_phrase (h.place_in node hway.node_lt) hinner
    (fun t ht => hway.sound t (happ ▸ List.mem_append_left _ ht)) hparts hfirst
  refine ⟨q', ?_, htrail⟩
  have hfits := fits_advance hadv (hphrase.addWeight weight)
    ((Tree.before_addWeight _ _).trans (Tree.before_build hinner)) (Tree.label_addWeight _ _)
    (Tree.extra_addWeight _ _)
  rw [Tree.stop_addWeight, Tree.stop_build hinner] at hfits
  exact hfits

/-- A new branch that stands at `q` is there in the end, or has been merged into an older one. -/
theorem grows_of_mergeFirst? {x : Reading} {vs : List Nat} {st : Option State}
    (hkeeps : Keeps r.size r x) (hx : x.Sound text) (hsize : x.size = r.size + 1)
    (hs : Stands x r.size q st) :
    ((x.mergeFirst? vs r.size).getD x).Sound text
      ∧ Grows r.size q r ((x.mergeFirst? vs r.size).getD x) := by
  cases hm : x.mergeFirst? vs r.size with
  | none =>
    refine ⟨hx, hkeeps, ?_, ?_⟩
    · intro u hu hlt
      have hu' : u = r.size := by simp only [Option.getD_none, hsize] at hlt; omega
      rw [hu']
      exact hs.active
    · intro u hu hlt
      have hu' : u = r.size := by simp only [Option.getD_none, hsize] at hlt; omega
      rw [hu']
      exact hs.place_eq
  | some y =>
    obtain ⟨hy, hdrop⟩ := mergeFirst?_sound hx hm
    have hysize : y.size = r.size := by rw [hdrop.size_eq, hsize]; rfl
    refine ⟨hy, hkeeps.trans hdrop.keeps (Nat.le_refl _), ?_, ?_⟩
    · intro u hu hlt
      simp only [Option.getD_some, hysize] at hlt
      omega
    · intro u hu hlt
      simp only [Option.getD_some, hysize] at hlt
      omega

/-- The phrase that the production `k` makes of some trees on top of the frame `node`. -/
def phraseOf (r : Reading) (k node : Nat) (trees : List Tree) : Tree :=
  Tree.build (.symbol (.category (Grammar.production k).head)) (some k) (r.frame node).place
    (Tree.splitTrailing trees).1

/-- The reading with a new branch on the frame `node`, on which the production `k` has been closed: the
phrase lies on top of that frame, and what is set apart behind it lies on top of the phrase. -/
def closing (r : Reading) (v k node : Nat) (next : State) (phrase : Tree) (trailing : List Tree) :
    Reading :=
  trailing.foldl (fun x t => x.push r.size (some t) (some next))
    ((r.addBranch ⟨node, (r.branch v).countAtError, .active, none⟩).push r.size
      (some (phrase.addWeight (Grammar.production k).weight)) (some next))

/-- What closing a production over a slice can do: nothing, or there is a new branch for one way to take
the trees, which may be merged into an older one. -/
theorem closeSlice_cases (v k halted : Nat) (x : Reading) (node : Nat)
    (alternatives : List (List Tree)) :
    closeSlice v k halted x (node, alternatives) = x
      ∨ ∃ trees ∈ alternatives, ∃ below next, (x.frame node).state = some below
        ∧ below.advance (.category (Grammar.production k).head) = some next
        ∧ closeSlice v k halted x (node, alternatives)
          = ((x.closing v k node next (x.phraseOf k node trees)
              (Tree.splitTrailing trees).2).mergeFirst? ((List.range x.size).filter (· != v))
                x.size).getD
            (x.closing v k node next (x.phraseOf k node trees) (Tree.splitTrailing trees).2) := by
  rw [closeSlice]
  split
  · exact Or.inl rfl
  · extract_lets below make
    split
    · next phrase trailing next hchoose hnext =>
      rcases choosePhrase_cases hchoose with hnone | ⟨trees, htrees, rfl, rfl⟩
      · cases hnone
      · obtain ⟨stb, hstb, hadv⟩ := Option.bind_eq_some_iff.mp hnext
        exact Or.inr ⟨trees, htrees, stb, next, hstb, hadv, rfl⟩
    · exact Or.inl rfl

/-- The new branch stands where the old one does. -/
theorem closing_stands (h : r.Sound text) {st : State} (hst : r.state v = some st)
    (hc : st.Closes k) {x : Reading} (hx : x.Sound text) (hkeeps : Keeps r.size r x) {node : Nat}
    {alternatives : List (List Tree)}
    (hs : (node, alternatives) ∈ r.slices v (Grammar.production k).steps.size) {trees : List Tree}
    (htrees : trees ∈ alternatives) {below next : State} (hstate : (x.frame node).state = some below)
    (hadv : below.advance (.category (Grammar.production k).head) = some next) :
    let y := x.closing v k node next (x.phraseOf k node trees) (Tree.splitTrailing trees).2
    y.Sound text ∧ (∃ z, Stands y x.size (r.place v) z) ∧ Keeps x.size x y ∧ y.size = x.size + 1 := by
  intro y
  obtain ⟨hway, hcol⟩ := (slices_reduce h hst hc hs).2 trees htrees
  have hnode : node < x.frames.size := Nat.lt_of_lt_of_le hway.node_lt hkeeps.frames_le
  have hplace : (x.frame node).place = (r.frame node).place := hkeeps.place_eq node hway.node_lt
  obtain ⟨q', hfits, htrail⟩ := fits_phrase h hway hcol hadv (Grammar.production k).weight
  rw [← hplace] at hfits
  have hbounded : ∀ y, some next = some y → y.Bounded := fun y hy =>
    Option.some.inj hy ▸ State.Bounded.advance hadv
  obtain ⟨h1, hs1⟩ := hx.addBranch_stands hnode (x.branch v).countAtError none
  rw [hstate] at hs1
  obtain ⟨h2, hs2, hk2⟩ := hs1.push h1 hfits hbounded
  obtain ⟨h3, hs3, hk3⟩ := hs2.foldl_push h2 htrail
    (fun t ht => hway.sound t (splitTrailing_append trees ▸ List.mem_append_right _ ht))
    (fun t => extra_of_mem_splitTrailing) hbounded fun st hst i hi _ => ⟨st, hst, hi⟩
  refine ⟨h3, hs3, ?_, ?_⟩
  · exact (keeps_addBranch _ _).trans (hk2.trans hk3 (Nat.le_refl _)) (Nat.le_refl _)
  · show Reading.size (List.foldl _ _ _) = _
    rw [size_foldl_push, size_push, size_addBranch]

theorem closeSlice_grows (h : r.Sound text) {st : State} (hst : r.state v = some st)
    (hc : st.Closes k) {x : Reading} (hx : x.Sound text) (hkeeps : Keeps r.size r x)
    {s : Nat × List (List Tree)} (hs : s ∈ r.slices v (Grammar.production k).steps.size)
    (halted : Nat) :
    (closeSlice v k halted x s).Sound text
      ∧ Grows x.size (r.place v) x (closeSlice v k halted x s) := by
  obtain ⟨node, alternatives⟩ := s
  rcases closeSlice_cases v k halted x node alternatives with
    heq | ⟨trees, htrees, below, next, hstate, hadv, heq⟩
  · rw [heq]
    exact ⟨hx, Grows.refl x _⟩
  · obtain ⟨h3, ⟨_, hs3⟩, hk3, hsize⟩ := closing_stands h hst hc hx hkeeps hs htrees hstate hadv
    rw [heq]
    exact grows_of_mergeFirst? hk3 h3 hsize hs3

/-- Closing a production leads to new branches that stand where the old one does. -/
theorem reduce_grows (h : r.Sound text) {st : State} (hst : r.state v = some st)
    (hc : st.Closes k) :
    (r.reduce v k).Sound text ∧ Grows r.size (r.place v) r (r.reduce v k) := by
  unfold reduce
  extract_lets halted
  -- the slices are those of `r`, whatever the earlier ones have added
  have hfold : ∀ (slices : List (Nat × List (List Tree))) (x : Reading),
      (∀ s ∈ slices, s ∈ r.slices v (Grammar.production k).steps.size) → x.Sound text →
      Grows r.size (r.place v) r x →
      (slices.foldl (closeSlice v k halted) x).Sound text
        ∧ Grows r.size (r.place v) r (slices.foldl (closeSlice v k halted) x) := by
    intro slices
    induction slices with
    | nil => intro x _ hx hg; exact ⟨hx, hg⟩
    | cons s slices ih =>
      intro x hmem hx hg
      obtain ⟨hx', hg'⟩ := closeSlice_grows h hst hc hx hg.keeps (hmem s List.mem_cons_self) halted
      exact ih _ (fun s' hs' => hmem s' (List.mem_cons_of_mem _ hs')) hx' (hg.trans hx hg')
  exact hfold _ r (fun _ hs => hs) h (Grows.refl r _)

theorem fst_reduceNew (r : Reading) (v k : Nat) : (r.reduceNew v k).1 = r.reduce v k := by
  rw [reduceNew]

theorem reduceNew_eq_some {w : Nat} (h : (r.reduceNew v k).2 = some w) :
    r.size = w ∧ w < (r.reduceNew v k).1.size := by
  unfold reduceNew at h ⊢
  generalize r.reduce v k = x at h ⊢
  obtain ⟨hlt, hw⟩ := Option.ite_none_right_eq_some.mp h
  exact ⟨Option.some.inj hw, Option.some.inj hw ▸ hlt⟩

/-- Productions have been closed on the branch `v` of `r`, and the branch `found.2` has arisen so. -/
structure Closed (text : List Char) (r : Reading) (v : Nat) (found : Reading × Option Nat) :
    Prop where
  sound : found.1.Sound text
  grows : Grows r.size (r.place v) r found.1
  new : ∀ w, found.2 = some w → r.size ≤ w ∧ w < found.1.size

variable {found : Reading × Option Nat}

theorem closed_start (h : r.Sound text) (v : Nat) : Closed text r v (r, none) :=
  ⟨h, Grows.refl r _, fun _ hw => nomatch hw⟩

theorem Closed.reduceNew (h : Closed text r v found) (hr : r.Sound text) (hv : v < r.size)
    {st : State} (hst : r.state v = some st) (hc : st.Closes k) :
    Closed text r v (found.1.reduceNew v k)
      ∧ found.1.size ≤ (found.1.reduceNew v k).1.size := by
  have hstate : found.1.state v = some st := (h.grows.keeps.state hr hv).trans hst
  obtain ⟨hs, hg⟩ := reduce_grows h.sound hstate hc
  rw [h.grows.keeps.place hr hv] at hg
  rw [← fst_reduceNew] at hs hg
  refine ⟨⟨hs, h.grows.trans h.sound hg, fun w hw => ?_⟩, hg.keeps.le_size⟩
  obtain ⟨rfl, hlt⟩ := reduceNew_eq_some hw
  exact ⟨h.grows.keeps.le_size, hlt⟩

end SpanIndex.Syntax.Reading
