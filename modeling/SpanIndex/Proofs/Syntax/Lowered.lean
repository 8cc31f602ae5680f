import SpanIndex.Proofs.Syntax.Aftermath
import SpanIndex.Proofs.Syntax.Lockstep

/-!
# A text behind line breaks is read alike

As long as everything fits, the reading of a text with line breaks in front of it corresponds to that of
the text itself, round by round. At the first token that does not fit this comes to an end, as what is
skipped or gone back over costs more if there are line breaks in it. But from there on both readings have to
answer for the error. So either the trees of the two texts correspond, or both have a fault
(`parse_lowered`).
-/

namespace SpanIndex.Syntax

open Text

namespace Reading

variable {text : List Char} {live : Nat → Prop} {r x : Reading} {k u v : Nat} {token root : Tree}

/-! ## Before the first error -/

/-- The branch is not lost, and there is nothing that it could go back to. -/
def View.Unspent (i : View) : Prop :=
  i.status.isHalted = true ∨ (i.state ≠ none ∧ i.waypoints = none)

theorem lasting_unspent : Lasting View.Unspent (fun _ => True) where
  halted := fun _ hi => Or.inl hi
  goesOn := fun i j hi hactive _ _ hne hways => by
    refine Or.inr ⟨hne, ?_⟩
    rcases hi with hh | ⟨-, hnone⟩
    · rw [hactive] at hh
      cases hh
    · exact hways.elim id fun h => h.trans hnone
  lost := fun i hi hactive hlost => by
    rcases hi with hh | ⟨hne, -⟩
    · rw [hactive] at hh
      cases hh
    · exact absurd hlost hne
  finishes := fun _ _ _ _ _ _ => trivial

/-- A reading in which no branch has met an error. -/
def Intact (text : List Char) (r : Reading) : Prop := Carries text View.Unspent (fun _ => True) r

theorem pruned_intact (h : Intact text r) : Intact text r.pruned.1 :=
  (prune_carries _ h).of_sublist rfl rfl fun _ hb => List.mem_of_mem_take hb

theorem resume_intact (fuel : Nat) : ∀ {v : Nat} {running : Bool} {best : Option Nat} {r : Reading},
    Intact text r → r.Calm → Intact text (resume fuel v running best r).1 := by
  induction fuel with
  | zero => intro v running best r h _; exact h
  | succ fuel ih =>
    intro v running best r h hcalm
    rw [resume]
    split
    · exact h
    · next hlt =>
      split
      · next token hst =>
        have hfull := hcalm.full hst
        rw [if_neg (by simp [Nat.not_lt.mpr hfull])]
        exact ih (h.removeBranch (Nat.lt_of_not_le hlt)) (Or.inl hfull)
      · exact ih h hcalm

theorem condense_intact (h : Intact text r) (hcalm : r.pruned.1.Calm) : Intact text r.condense.1 := by
  rw [condense_eq]
  exact resume_intact _ (pruned_intact h) hcalm

/-! ## The first error -/

/-- Files with faults have been added to what was finished before. -/
def AddsFaults (best now : Option Tree) : Prop :=
  ∃ roots : List Tree, (∀ root ∈ roots, 0 < root.facts.cost ∧ root.hasFault = true)
    ∧ now = roots.foldl betterTree best

theorem absorbs_addsFaults (best : Option Tree) : Absorbs (AddsFaults best) := by
  rintro _ roots ⟨earlier, hearlier, rfl⟩ hroots
  refine ⟨earlier ++ roots, fun root hroot => ?_, (List.foldl_append ..).symm⟩
  exact (List.mem_append.mp hroot).elim (hearlier root) (hroots root)

theorem AddsFaults.hasFault {best : Option Tree} (h : AddsFaults none best) :
    Holds (fun t => t.hasFault = true) best := by
  obtain ⟨roots, hroots, rfl⟩ := h
  exact absorbs_holds (fun _ h => h) none roots (fun t ht => by cases ht) hroots

/-- A file that costs nothing is better than files with faults. -/
theorem AddsFaults.eq {t : Tree} {best : Option Tree} (h : AddsFaults (some t) best)
    (hcost : t.facts.cost = 0) : best = some t := by
  obtain ⟨roots, hroots, rfl⟩ := h
  induction roots with
  | nil => rfl
  | cons root roots ih =>
    have hpos := (hroots root List.mem_cons_self).1
    have hbetter : betterTree (some t) root = some t := by
      have hworse : t.prefersSecond root = false := by
        unfold Tree.prefersSecond
        rw [hcost, if_pos (bne_iff_ne.mpr (Nat.ne_of_gt hpos))]
        rfl
      unfold betterTree
      simp only [hworse, Bool.false_eq_true, if_false]
    rw [List.foldl_cons, hbetter]
    exact ih fun root' hmem => hroots root' (List.mem_cons_of_mem _ hmem)

/-- When all branches wait in front of tokens that do not fit, and the first of them is resumed, then all
that are left have to answer for it. -/
theorem Stuck.strikes (hstuck : r.Stuck token) (h : Intact text r) :
    (r.struck token).Sound text ∧ (∃ live, Traced live (AddsFaults r.finished) (r.struck token))
      ∧ ∀ u, u < (r.struck token).size → ((r.struck token).view u).Marked := by
  obtain ⟨live, ht⟩ := h.traced
  have hstart : Traced live (AddsFaults r.finished) r :=
    ⟨ht.linked, ht.live_later, ht.bottom, ht.branches, [], (fun _ hr => by cases hr), rfl⟩
  have hunspent : r.state 0 ≠ none ∧ (r.branch 0).waypoints = none := by
    rcases h.looks 0 hstuck.nonempty with hh | hun
    · rw [show (r.view 0).status = _ from hstuck.status_eq] at hh
      cases hh
    · exact hun
  obtain ⟨hsx, ⟨live', htx⟩, hstr, hself⟩ := resumed_strikes (absorbs_addsFaults _) hstart h.sound
    hstuck.nonempty hstuck.status_eq fun _ => hunspent
  unfold struck
  extract_lets x
  generalize hbranches : x.branches.take 1 ++ ((x.branches.take r.size).drop 1).filter
    (fun b => !b.status.isPaused) ++ x.branches.drop r.size = left
  -- the branches that waited besides the first are dropped
  have hleft : ∀ b ∈ left, ∃ u, u < x.size ∧ x.branch u = b ∧ (x.view u).Marked := by
    intro b hb
    rw [← hbranches, List.mem_append, List.mem_append, List.mem_filter] at hb
    rcases hb with (hb | ⟨hb, hrun⟩) | hb
    · obtain ⟨i, hi, rfl⟩ := List.mem_take_iff_getElem.mp hb
      obtain rfl : i = 0 := by omega
      exact ⟨0, by show 0 < x.branches.length; omega, branch_eq_getElem (by omega), hself⟩
    · obtain ⟨i, hi, rfl⟩ := List.mem_drop_iff_getElem.mp hb
      rw [List.length_take] at hi
      rw [List.getElem_take, ← branch_eq_getElem] at hrun
      have hstatus : (x.branch (1 + i)).status = (r.branch (1 + i)).status :=
        congrArg View.status (hstr.view_eq (1 + i) (by omega) (by omega))
      rw [hstatus, (hstuck.level (1 + i) (by omega)).2] at hrun
      cases hrun
    · obtain ⟨i, hi, rfl⟩ := List.mem_drop_iff_getElem.mp hb
      exact ⟨r.size + i, by show _ < x.branches.length; omega, branch_eq_getElem (by omega),
        hstr.marked _ (Nat.le_add_right _ _) (by show _ < x.branches.length; omega)⟩
  have hmem : ∀ b ∈ left, b ∈ x.branches := fun b hb => by
    obtain ⟨u, hu, he, -⟩ := hleft b hb
    exact mem_branches_iff.mpr ⟨u, hu, he⟩
  refine ⟨hsx.of_sublist rfl rfl hmem, ⟨live', htx.of_sublist rfl rfl hmem⟩, fun u hu => ?_⟩
  obtain ⟨u', -, he, hmark⟩ := hleft _ (mem_branches_iff.mpr ⟨u, hu, rfl⟩)
  have hview : Reading.view { x with branches := left } u = x.view u' :=
    view_congr (fun _ => rfl) (fun _ => rfl) (by rw [he]) (by rw [he]) (by rw [he])
  rw [hview]
  exact hmark

theorem Stuck.answers (hstuck : r.Stuck token) (h : Intact text r) (hnone : r.finished = none) :
    Answers text (r.struck token) := by
  obtain ⟨hs, ⟨live, ht⟩, hmarked⟩ := hstuck.strikes h
  have hfin := ht.finished
  rw [hnone] at hfin
  exact ⟨hs, ⟨live, ht.linked, ht.live_later, ht.bottom, ht.branches, hfin.hasFault⟩, hmarked⟩

theorem Stuck.finished_eq (hstuck : r.Stuck token) (h : Intact text r) {t : Tree}
    (hfin : r.finished = some t) (hcost : t.facts.cost = 0) : (r.struck token).finished = some t := by
  obtain ⟨-, ⟨live, ht⟩, -⟩ := hstuck.strikes h
  have hadds := ht.finished
  rw [hfin] at hadds
  exact hadds.eq hcost

/-- If something has been read already, then what is stuck is given up for it. -/
theorem Stuck.readAll_eq (hstuck : (readRound (64 * (r.size + 4)) 0 r).pruned.1.Stuck token)
    (h : Intact text (readRound (64 * (r.size + 4)) 0 r).pruned.1) {t : Tree}
    (hfin : (readRound (64 * (r.size + 4)) 0 r).pruned.1.finished = some t) (hcost : t.facts.cost = 0)
    (fuel : Nat) : readAll (fuel + 1) r = some t := by
  have hsettled : isSettled t (some ((readRound (64 * (r.size + 4)) 0 r).pruned.1.cost 0)) = true := by
    have hpending : 0 < (readRound (64 * (r.size + 4)) 0 r).pruned.1.cost 0 := by
      unfold Reading.cost
      rw [hstuck.status_eq]
      exact Nat.lt_of_lt_of_le (by decide : 0 < Tree.faultCost) (Nat.le_add_left _ _)
    unfold isSettled
    rw [hcost]
    exact decide_eq_true hpending
  rw [readAll, hstuck.condense_eq]
  simp only [hstuck.finished_eq h hfin hcost, hsettled, Bool.or_true, if_true]

theorem Stuck.readAll_hasFault (hstuck : (readRound (64 * (r.size + 4)) 0 r).pruned.1.Stuck token)
    (h : Intact text (readRound (64 * (r.size + 4)) 0 r).pruned.1)
    (hnone : (readRound (64 * (r.size + 4)) 0 r).pruned.1.finished = none) (fuel : Nat) :
    Holds (fun t => t.hasFault = true) (readAll (fuel + 1) r) := by
  intro t ht
  have hround := hstuck.answers h hnone
  have hcases := readAll_succ ht
  rw [hstuck.condense_eq] at hcases
  rcases hcases with hfin | hlater
  · obtain ⟨live, htraced⟩ := hround.traced
    exact htraced.finished t hfin
  · exact Reading.readAll_hasFault fuel hround hlater

/-! ## The whole text -/

/-- The trees of a text with `k` line breaks in front of it and of the text itself correspond, or both have
a fault. -/
def Alike (k : Nat) (low high : Option Tree) : Prop :=
  (high = low.map (Tree.raise k) ∧ ∀ t, low = some t → ∀ c ∈ t.children, k ≤ c.facts.start.index)
    ∨ (Holds (fun t => t.hasFault = true) low ∧ Holds (fun t => t.hasFault = true) high)

@[simp] theorem finished_raise (k : Nat) (r : Reading) :
    (r.raise k).finished = r.finished.map (Tree.raise k) := rfl

@[simp] theorem isSettled_raise (k : Nat) (t : Tree) (best : Option Nat) :
    isSettled (t.raise k) best = isSettled t best := by
  unfold isSettled
  rw [Tree.facts_raise]
  rfl

theorem Calm.raise (h : r.Calm) (k : Nat) : (r.raise k).Calm := by
  refine h.imp_right fun h u => ?_
  rw [branch_raise, isPaused_raise]
  exact h u

theorem readAll_raise (htext : Legible text) (fuel : Nat) : ∀ {r : Reading}, r.Clean k →
    Intact (lowered k text) r → Intact text (r.raise k) →
    Alike k (readAll fuel r) (readAll fuel (r.raise k)) := by
  induction fuel with
  | zero =>
    intro r h _ _
    exact Or.inl ⟨rfl, fun t ht => (h.finished_costless t ht).2⟩
  | succ fuel ih =>
    intro r h hlow hhigh
    obtain ⟨hclean, heq⟩ := readRound_raise htext (64 * (r.size + 4)) (v := 0) hlow.sound h
    have hlow' : Intact (lowered k text) (readRound (64 * (r.size + 4)) 0 r) :=
      readRound_carries lasting_unspent _ hlow
    have hhigh' : Intact text ((readRound (64 * (r.size + 4)) 0 r).raise k) :=
      heq ▸ readRound_carries lasting_unspent _ hhigh
    rcases condense_raise hlow'.sound hclean with ⟨hcalm, hcond, hcondeq⟩ | ⟨token, hstuck⟩
    · have hcalm' : ((readRound (64 * (r.size + 4)) 0 r).raise k).pruned.1.Calm := by
        rw [(pruned_raise hlow'.sound hclean).2]
        exact hcalm.raise k
      have hlow'' := condense_intact hlow' hcalm
      have hhigh'' := condense_intact hhigh' hcalm'
      rw [hcondeq] at hhigh''
      rw [readAll, readAll, size_raise, heq, hcondeq]
      generalize (readRound (64 * (r.size + 4)) 0 r).condense = c at *
      simp only [size_raise, finished_raise]
      cases hfin : c.1.finished with
      | none =>
        simp only [Option.map_none]
        split
        · exact Or.inl ⟨rfl, fun _ ht => by cases ht⟩
        · exact ih hcond hlow'' hhigh''
      | some t =>
        simp only [Option.map_some, isSettled_raise]
        split
        · refine Or.inl ⟨rfl, fun s hs => ?_⟩
          cases hs
          exact (hcond.finished_costless t hfin).2
        · exact ih hcond hlow'' hhigh''
    · obtain ⟨hpclean, hpeq⟩ := pruned_raise hlow'.sound hclean
      have hround : (readRound (64 * ((r.raise k).size + 4)) 0 (r.raise k)).pruned.1
          = (readRound (64 * (r.size + 4)) 0 r).pruned.1.raise k := by
        rw [size_raise, heq, hpeq]
      have hhigh'' := pruned_intact hhigh'
      have hstuck' := hstuck.raise k
      rw [hpeq] at hhigh''
      rw [← hround] at hhigh'' hstuck'
      cases hfin : (readRound (64 * (r.size + 4)) 0 r).pruned.1.finished with
      | none =>
        refine Or.inr ⟨hstuck.readAll_hasFault (pruned_intact hlow') hfin fuel,
          hstuck'.readAll_hasFault hhigh'' ?_ fuel⟩
        rw [hround, finished_raise, hfin]
        rfl
      | some t =>
        obtain ⟨hcostless, hstart⟩ := hpclean.finished_costless t hfin
        rw [hstuck.readAll_eq (pruned_intact hlow') hfin hcostless.cost_eq,
          hstuck'.readAll_eq hhigh'' (t := t.raise k) (by rw [hround, finished_raise, hfin]; rfl)
            (by rw [Tree.facts_raise]; exact hcostless.cost_eq)]
        refine Or.inl ⟨rfl, fun s hs => ?_⟩
        cases hs
        exact hstart

theorem frame_start {n : Nat} (text : List Char) (hn : n < (start text).frames.size) :
    (start text).frame n = ⟨some State.start, Place.start text, [], 0, 0, 0⟩ := by
  obtain rfl : n = 0 := Nat.lt_one_iff.mp hn
  rfl

theorem start_raise (k : Nat) (text : List Char) : (start (lowered k text)).raise k = start text := by
  have hframe : Frame.raise k ⟨some State.start, Place.start (lowered k text), [], 0, 0, 0⟩
      = ⟨some State.start, Place.start text, [], 0, 0, 0⟩ := by
    unfold Frame.raise
    rw [Place.raise_start]
    rfl
  unfold start raise
  simp only [List.map_toArray, List.map_cons, List.map_nil, hframe, Nat.zero_sub]
  rfl

theorem start_clean (k : Nat) (text : List Char) : (start text).Clean k where
  linked := fun n hn _ l hl => by
    rw [frame_start text hn] at hl
    cases hl
  clear := fun n hn => Or.inl (Nat.lt_one_iff.mp hn)
  bottom_index := rfl
  bottom_links := rfl
  bottom_state := rfl
  cost_eq := fun n hn => by rw [frame_start text hn]
  state_ne := fun n hn => by
    rw [frame_start text hn]
    exact Option.some_ne_none _
  waypoints_eq := fun b hb => by rw [List.mem_singleton.mp hb]
  paused_costless := fun b hb t ht => by
    rw [List.mem_singleton.mp hb] at ht
    cases ht
  finished_costless := fun t ht => by cases ht
  furthest_clear := Or.inl rfl

theorem start_intact (text : List Char) : Intact text (start text) := by
  refine ⟨start_sound text, ⟨fun _ => True, ?_, fun _ _ => trivial, ?_, ?_, fun _ _ => trivial⟩, ?_⟩
  · intro n hn _ l hl
    rw [frame_start text hn] at hl
    cases hl
  · intro n hn _
    rw [frame_start text hn]
  · intro b hb
    rw [List.mem_singleton.mp hb]
    exact ⟨fun _ => trivial, fun t ht => by cases ht⟩
  · intro u hu
    obtain rfl : u = 0 := Nat.lt_one_iff.mp hu
    exact Or.inr ⟨Option.some_ne_none State.start, rfl⟩

end Reading

open Reading

theorem roundFuel_lowered (k : Nat) (text : List Char) : roundFuel (lowered k text) = roundFuel text := by
  unfold roundFuel
  rw [dropWhile_lowered]

/-- The tree of a text with line breaks in front of it corresponds to that of the text itself, or both have
a fault. -/
theorem parse_lowered {text : List Char} (htext : Legible text) (k : Nat) :
    (parse text = (parse (lowered k text)).raise k
        ∧ ∀ c ∈ (parse (lowered k text)).children, k ≤ c.facts.start.index)
      ∨ ((parse (lowered k text)).hasFault = true ∧ (parse text).hasFault = true) := by
  have halike := readAll_raise (k := k) htext (roundFuel text) (start_clean k _) (start_intact _)
    (by rw [start_raise]; exact start_intact text)
  rw [start_raise] at halike
  unfold parse
  rw [roundFuel_lowered]
  generalize readAll (roundFuel text) (Reading.start (lowered k text)) = low at halike
  generalize readAll (roundFuel text) (Reading.start text) = high at halike
  -- a text that cannot be read at all is an error
  have hgetD : ∀ {best : Option Tree} {p : Place}, Holds (fun t => t.hasFault = true) best →
      (best.getD (Tree.leaf .error p p p)).hasFault = true := by
    intro best p h
    cases best with
    | none => rfl
    | some t => exact h t rfl
  rcases halike with ⟨rfl, hstart⟩ | ⟨hlow, hhigh⟩
  · cases low with
    | none => exact Or.inr ⟨rfl, rfl⟩
    | some t => exact Or.inl ⟨rfl, hstart t rfl⟩
  · exact Or.inr ⟨hgetD hlow, hgetD hhigh⟩

/-! ## Blank texts

The end of a blank text is read where nothing has been read before. So an empty file lies at the very
beginning there, not behind the line breaks, and the two readings are compared in the end only. -/

namespace Reading

variable {text : List Char} {token : Tree} {k : Nat} {next : State} {r : Reading}

/-- In front of the end of the text an empty file is closed, and that is all. -/
theorem start_closes : ∃ k, State.start.actions none = [.reduce k]
    ∧ (Grammar.production k).steps.size = 0 ∧ (Grammar.production k).head = .sourceFile
    ∧ (State.start.advance (.category .sourceFile)).map (·.actions none) = some [.accept]
    ∧ (Mode.ofExpectation State.start.expected).sought.hasEnd = true :=
  ⟨9, by decide +kernel⟩

/-- The reading after the empty phrase of the production `k` has been closed at the beginning. -/
def opened (text : List Char) (k : Nat) (next : State) : Reading :=
  (start text).closing 0 k 0 next ((start text).phraseOf k 0 []) []

theorem reduceNew_start (hsize : (Grammar.production k).steps.size = 0)
    (hadv : State.start.advance (.category (Grammar.production k).head) = some next) :
    (start text).reduceNew 0 k = (opened text k next, some 1) := by
  have hslices : (start text).slices 0 0 = [(0, [[]])] := rfl
  have hnext : ((start text).frame 0).state.bind (·.advance (.category (Grammar.production k).head))
      = some next := by
    rw [frame_start text Nat.one_pos, Option.bind_some]
    exact hadv
  have hreduce : (start text).reduce 0 k = opened text k next := by
    unfold reduce
    rw [hsize, hslices, List.foldl_cons, List.foldl_nil, closeSlice]
    simp only [hnext]
    rfl
  unfold reduceNew
  rw [hreduce]
  rfl

theorem readToken_end (hl : token.facts.label = .endOfInput)
    (hk : State.start.actions none = [.reduce k]) (hsize : (Grammar.production k).steps.size = 0)
    (hadv : State.start.advance (.category (Grammar.production k).head) = some next)
    (hacc : next.actions none = [.accept]) (fuel : Nat) :
    readToken 0 (fuel + 2) token (start text)
      = ((opened text k next).replaceBranch 1 0).accept 0 token := by
  have hst : (start text).state 0 = some State.start := by
    show ((start text).frame 0).state = _
    rw [frame_start text Nat.one_pos]
  have hst' : ((opened text k next).replaceBranch 1 0).state 0 = some next := rfl
  have hact : actionsAt State.start .endOfInput = [.reduce k] := hk
  have hact' : actionsAt next .endOfInput = [.accept] := hacc
  have hcomment : (Label.endOfInput == Label.ofTerminal .comment) = false := rfl
  have haccept : [State.Action.reduce k].contains .accept = false := rfl
  have hshift : [State.Action.reduce k].contains .shift = false := rfl
  have hfound : closeBy 0 (start text, none) (.reduce k) = (opened text k next, some 1) := by
    rw [closeBy]
    simp only [reduceNew_start hsize hadv]
    rfl
  -- the phrase is closed on a new branch, which takes the place of the old one and is finished
  rw [readToken, hst]
  simp only [hl, hcomment, hact, haccept, hshift, List.foldl_cons, List.foldl_nil, hfound,
    Bool.false_eq_true, if_false]
  rw [readToken, hst']
  simp only [hl, hcomment, hact', Bool.false_eq_true, if_false]
  rfl

/-- A branch with a single phrase on it makes a file of that. -/
theorem rootsOf_single {f g : Frame} {b : Branch} (phrase : Tree) (hframes : r.frames = #[f, g])
    (hbranches : r.branches = [b]) (htop : b.top = 1) (hf : f.links = [])
    (hg : g.links = [⟨0, some phrase⟩]) (hphrase : phrase.facts.extra = false)
    (hx : token.facts.extra = true) :
    r.rootsOf 0 token = [Tree.build phrase.facts.label phrase.facts.production phrase.facts.before
      (phrase.children ++ [token])] := by
  obtain ⟨frames, branches, finished, count, furthest⟩ := r
  obtain rfl : frames = #[f, g] := hframes
  obtain rfl : branches = [b] := hbranches
  have htrees : (push ⟨#[f, g], [b], finished, count, furthest⟩ 0 (some token)
      (some State.start)).allTrees 0 = [[phrase, token]] := by
    simp [allTrees, walkFrom, walk, visit, onward, Path.follow, Reading.push, Reading.setBranch,
      Reading.branch, Reading.frame, htop, hf, hg]
  have hsplice : Tree.spliceLast? [phrase, token] = some (Tree.build phrase.facts.label
      phrase.facts.production phrase.facts.before (phrase.children ++ [token])) := by
    simp [Tree.spliceLast?, Tree.splitTrailing, hphrase, hx]
  unfold rootsOf
  rw [htrees, List.filterMap_cons_some hsplice]
  rfl

/-- When the only branch is halted there is nothing left to do. -/
theorem condense_of_halted {b : Branch} (hb : r.branches = [b]) (hhalt : b.status = .halted) :
    r.condense.1.finished = r.finished ∧ r.condense.1.size = 0 := by
  have hsize : r.size = 1 := congrArg List.length hb
  have hbranch : r.branch 0 = b := by
    unfold Reading.branch
    rw [hb]
    rfl
  have hnil : (r.removeBranch 0).branches = [] := by
    show r.branches.eraseIdx 0 = []
    rw [hb]
    rfl
  have hsize' : (r.removeBranch 0).size = 0 := congrArg List.length hnil
  have hprune : prune (2 * r.size + 2) 0 none r = (r.removeBranch 0, none) := by
    rw [hsize]
    show prune (2 + 1 + 1) 0 none r = _
    rw [prune, if_neg (by omega), hbranch, if_pos (by rw [hhalt]; rfl), prune, if_pos (by omega)]
  unfold condense
  simp only [hprune, hnil, List.take_nil]
  rw [resume, if_pos]
  · exact ⟨rfl, rfl⟩
  · exact Nat.le_refl 0

/-- As long as no branch goes on, a round changes nothing. -/
theorem readRound_of_halted {b : Branch} (hb : r.branches = [b]) (hhalt : b.status = .halted)
    (fuel : Nat) (v : Nat) : readRound fuel v r = r := by
  induction fuel generalizing v with
  | zero => rfl
  | succ fuel ih =>
    have hactive : r.isActive v = false := by
      refine Bool.eq_false_iff.mpr fun hv => ?_
      have hlt : v < r.branches.length := lt_size_of_isActive hv
      rw [hb] at hlt
      obtain rfl : v = 0 := Nat.lt_one_iff.mp hlt
      unfold isActive Reading.branch at hv
      rw [hb, List.getD_cons_zero, hhalt] at hv
      cases hv
    rw [readRound, hactive]
    split
    · rfl
    · exact ih (v + 1)

/-- The end of a blank text is its first token. -/
theorem tokenAt_blank (hbom : text.head? ≠ some '\ufeff') (hblank : text.dropWhile isSpace = []) :
    ∃ q, tokenAt (some State.start) (Place.start text) = Tree.leaf .endOfInput (Place.start text) q q := by
  obtain ⟨-, -, -, -, -, hend⟩ := start_closes
  have hrest := Token.rest_skipSpace_start start_opens.1 hbom
  rw [hblank] at hrest
  have hread := Token.scan_of_skipsLines start_opens.1 (Place.start text)
  unfold Token.readAt at hread
  simp only [hrest, hend, if_true] at hread
  refine ⟨Token.skipSpace (Mode.ofExpectation State.start.expected).sought (Place.start text), ?_⟩
  rw [tokenAt_eq]
  unfold tokenIn soughtIn
  simp only [Option.map_some, Option.getD_some, hread, Option.isSome_some, if_true]
  rfl

/-- In front of the end of a blank text the only branch finishes with an empty file. -/
theorem readNext_blank (hbom : text.head? ≠ some '\ufeff') (hblank : text.dropWhile isSpace = []) :
    ∃ b n q, ((start text).readNext 0).branches = [b] ∧ b.status = .halted
      ∧ ((start text).readNext 0).finished = some (Tree.build (.symbol (.category .sourceFile)) n
        (Place.start text) [Tree.leaf .endOfInput (Place.start text) q q]) := by
  obtain ⟨k, hk, hsize, hhead, hnext, -⟩ := start_closes
  obtain ⟨next, hadv, hacc⟩ := Option.map_eq_some_iff.mp hnext
  obtain ⟨q, htoken⟩ := tokenAt_blank hbom hblank
  obtain ⟨fuel, hfuel⟩ := Nat.exists_eq_add_of_le'
    (show 2 ≤ (start text).closingFuel from Nat.le_of_ble_eq_true rfl)
  rw [← hhead] at hadv
  generalize hlook : Tree.leaf .endOfInput (Place.start text) q q = token at htoken
  have hlabel : token.facts.label = .endOfInput := by rw [← hlook]; rfl
  have hextra : token.facts.extra = true := by rw [← hlook]; rfl
  have hread : (start text).readNext 0 = ((opened text k next).replaceBranch 1 0).accept 0 token := by
    rw [← readToken_end hlabel hk hsize hadv hacc fuel, ← htoken, ← hfuel]
    rfl
  have hroots : ((opened text k next).replaceBranch 1 0).rootsOf 0 token
      = [Tree.build (.symbol (.category .sourceFile)) (some k) (Place.start text) [token]] := by
    rw [rootsOf_single (((start text).phraseOf k 0 []).addWeight (Grammar.production k).weight)
      rfl rfl rfl rfl rfl rfl hextra, ← hhead]
    rfl
  rw [hread, accept_eq Nat.one_pos, hroots]
  exact ⟨_, some k, q, rfl, rfl, by rw [hlook]; rfl⟩

/-- A round in which the only branch is halted is over. -/
theorem readRound_of_readNext {b : Branch} (hactive : r.isActive 0 = true)
    (hb : (r.readNext 0).branches = [b]) (hhalt : b.status = .halted) (fuel : Nat) :
    (readRound (fuel + 1) 0 r).branches = [b]
      ∧ (readRound (fuel + 1) 0 r).finished = (r.readNext 0).finished := by
  rw [readRound, if_neg (Nat.not_le.mpr (lt_size_of_isActive hactive)), if_pos hactive]
  extract_lets x here
  split
  · rw [readRound_of_halted (r := { x with furthest := here }) hb hhalt]
    exact ⟨hb, rfl⟩
  · rw [readRound_of_halted (r := x) hb hhalt]
    exact ⟨hb, rfl⟩

theorem readAll_blank (hbom : text.head? ≠ some '\ufeff') (hblank : text.dropWhile isSpace = [])
    (fuel : Nat) : ∃ n q, readAll (fuel + 1) (start text)
      = some (Tree.build (.symbol (.category .sourceFile)) n (Place.start text)
        [Tree.leaf .endOfInput (Place.start text) q q]) := by
  obtain ⟨b, n, q, hb, hhalt, hfinished⟩ := readNext_blank hbom hblank
  obtain ⟨rounds, hrounds⟩ := Nat.exists_eq_succ_of_ne_zero
    (show 64 * ((start text).size + 4) ≠ 0 by omega)
  obtain ⟨hbranches, hfin⟩ := readRound_of_readNext rfl hb hhalt rounds
  obtain ⟨hfin', hsize⟩ := condense_of_halted hbranches hhalt
  refine ⟨n, q, ?_⟩
  rw [readAll, hrounds]
  simp only [Nat.succ_eq_add_one, hfin', hfin, hfinished, hsize, beq_self_eq_true, Bool.true_or, if_true]

end Reading

/-- The tree of a blank text is an empty file. -/
theorem parse_blank {text : List Char} (hbom : text.head? ≠ some '\ufeff')
    (hblank : text.dropWhile isSpace = []) :
    ∃ n q, parse text = Tree.build (.symbol (.category .sourceFile)) n (Place.start text)
      [Tree.leaf .endOfInput (Place.start text) q q] := by
  obtain ⟨n, q, hread⟩ := readAll_blank hbom hblank 63
  have hfuel : roundFuel text = 63 + 1 := by
    unfold roundFuel
    rw [hblank]
    rfl
  refine ⟨n, q, ?_⟩
  unfold parse
  rw [hfuel, hread]
  rfl

end SpanIndex.Syntax
