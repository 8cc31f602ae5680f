import SpanIndex.Proofs.Syntax.Tree

/-!
# Trees with a fault

A tree has a fault if it holds, at any depth, a stretch of text that does not fit or a token that was
supplied. Not all of them are seen: a token without a name of its own that was supplied is hidden, and so
are tokens that are being skipped.

Only faults cost anything. A tree is honest if its cost, and that of every tree in it, comes from a fault,
and all trees are built so.
-/

namespace SpanIndex.Syntax.Tree

mutual

/-- Whether there is a fault in the tree, at any depth, seen or not. -/
def hasFault : Tree → Bool
  | .node f cs => f.label.isFault || f.missing || anyFault cs

/-- Whether there is a fault in one of the trees. -/
def anyFault : List Tree → Bool
  | [] => false
  | c :: cs => hasFault c || anyFault cs

end

variable {t c : Tree} {cs : List Tree} {l : Label} {n : Option Nat} {here : Place}

theorem anyFault_iff : anyFault cs = true ↔ ∃ c ∈ cs, c.hasFault = true := by
  induction cs with
  | nil => simp [anyFault]
  | cons c cs ih => simp [anyFault, ih]

theorem hasFault_iff : t.hasFault = true ↔
    t.facts.label.isFault = true ∨ t.facts.missing = true ∨ ∃ c ∈ t.children, c.hasFault = true := by
  cases t
  rw [hasFault, Bool.or_eq_true, Bool.or_eq_true, anyFault_iff, or_assoc]
  rfl

theorem hasFault_of_label (h : t.facts.label.isFault = true) : t.hasFault = true :=
  hasFault_iff.mpr (Or.inl h)

theorem hasFault_of_child (hc : c ∈ t.children) (h : c.hasFault = true) : t.hasFault = true :=
  hasFault_iff.mpr (Or.inr (Or.inr ⟨c, hc, h⟩))

/-! ## Costs -/

/-- What trees cost together. -/
def costs (trees : List Tree) : Nat := (trees.map (·.facts.cost)).sum

@[simp] theorem costs_cons (t : Tree) (ts : List Tree) : costs (t :: ts) = t.facts.cost + costs ts :=
  List.sum_cons

@[simp] theorem costs_append (ts us : List Tree) : costs (ts ++ us) = costs ts + costs us := by
  simp [costs]

theorem exists_cost_of_costs {ts : List Tree} (h : 0 < costs ts) : ∃ t ∈ ts, 0 < t.facts.cost := by
  obtain ⟨m, hm, hpos⟩ := List.sum_pos_iff_exists_pos_nat.mp h
  obtain ⟨t, ht, rfl⟩ := List.mem_map.mp hm
  exact ⟨t, ht, hpos⟩

theorem cost_build : (build l n here cs).facts.cost
    = (if l.isFault then faultCost + textCost (build l n here cs).facts.start
        (build l n here cs).facts.stop else 0)
      + (cs.map fun c => (if c.facts.label == .skipped then 0 else c.facts.cost)
        + (if l.isFault then c.skippingCost else 0)).sum := by
  have hfold : ∀ (own : Nat) (ds : List Tree),
      ds.foldl (fun n c => n + (if c.facts.label == .skipped then 0 else c.facts.cost)
        + (if l.isFault then c.skippingCost else 0)) own
      = own + (ds.map fun c => (if c.facts.label == .skipped then 0 else c.facts.cost)
        + (if l.isFault then c.skippingCost else 0)).sum := by
    intro own ds
    induction ds generalizing own with
    | nil => rfl
    | cons d ds ih => rw [List.foldl_cons, ih, List.map_cons, List.sum_cons]; omega
  exact hfold _ cs

theorem pos_cost_build_of_fault (h : l.isFault = true) : 0 < (build l n here cs).facts.cost := by
  rw [cost_build, if_pos h]
  exact Nat.lt_of_lt_of_le (by decide : 0 < faultCost)
    (Nat.le_trans (Nat.le_add_right _ _) (Nat.le_add_right _ _))

/-- A phrase costs what its parts cost, as none of them is being skipped. -/
theorem cost_build_of_fits (hl : l.isFault = false) (h : ∀ c ∈ cs, c.facts.label ≠ .skipped) :
    (build l n here cs).facts.cost = costs cs := by
  rw [cost_build, hl]
  simp only [Bool.false_eq_true, if_false, Nat.zero_add, Nat.add_zero]
  refine congrArg List.sum (List.map_congr_left fun c hc => ?_)
  rw [if_neg (by rw [beq_iff_eq]; exact h c hc)]

/-- A tree that costs something is a stretch that does not fit, or one of its children costs something. -/
theorem exists_cost_of_build (h : 0 < (build l n here cs).facts.cost) :
    l.isFault = true ∨ ∃ c ∈ cs, 0 < c.facts.cost := by
  by_cases hl : l.isFault = true
  · exact Or.inl hl
  · right
    rw [cost_build, if_neg hl, Nat.zero_add] at h
    obtain ⟨m, hm, hpos⟩ := List.sum_pos_iff_exists_pos_nat.mp h
    obtain ⟨c, hc, rfl⟩ := List.mem_map.mp hm
    refine ⟨c, hc, ?_⟩
    rw [if_neg hl, Nat.add_zero] at hpos
    split at hpos
    · cases hpos
    · exact hpos

@[simp] theorem cost_addWeight (w : Int) (t : Tree) : (t.addWeight w).facts.cost = t.facts.cost := by
  cases t; rfl

@[simp] theorem cost_asExtra (t : Tree) : t.asExtra.facts.cost = t.facts.cost := by
  cases t; rfl

/-! ## Honest trees -/

/-- What the tree costs comes from a fault in it. If it is an error that is set apart, then it holds
something besides comments and other errors. And this is true of all trees in it. -/
inductive Honest : Tree → Prop
  | node {f : Facts} {cs : List Tree} (fault : 0 < f.cost → (Tree.node f cs).hasFault = true)
      (holds : f.label = .error → f.extra = true → ∃ c ∈ cs, c.facts.extra = false)
      (children : ∀ c ∈ cs, Honest c) : Honest (.node f cs)

theorem Honest.hasFault (h : t.Honest) (hpos : 0 < t.facts.cost) : t.hasFault = true := by
  cases h with
  | node fault _ _ => exact fault hpos

theorem Honest.holds (h : t.Honest) (hl : t.facts.label = .error) (hx : t.facts.extra = true) :
    ∃ c ∈ t.children, c.facts.extra = false := by
  cases h with
  | node _ holds _ => exact holds hl hx

theorem Honest.child (h : t.Honest) (hc : c ∈ t.children) : c.Honest := by
  cases h with
  | node _ _ children => exact children c hc

theorem Honest.addWeight (h : t.Honest) (w : Int) : (t.addWeight w).Honest := by
  cases h with
  | node fault holds children =>
    exact .node (fun hpos => by simpa [Tree.hasFault] using fault hpos) holds children

theorem Honest.asExtra (h : t.Honest)
    (hl : t.facts.label = .error → ∃ c ∈ t.children, c.facts.extra = false) : t.asExtra.Honest := by
  cases h with
  | node fault _ children =>
    exact .node (fun hpos => by simpa [Tree.hasFault] using fault hpos) (fun he _ => hl he) children

theorem Honest.commentAsExtra (h : t.Honest) : t.commentAsExtra.Honest := by
  unfold Tree.commentAsExtra
  split
  · next hc => exact h.asExtra fun hl => by rw [beq_iff_eq.mp hc] at hl; cases hl
  · exact h

/-- A token costs nothing. -/
theorem honest_token (hcost : t.facts.cost = 0) (hleaf : t.children = [])
    (hl : t.facts.label = .error → t.facts.extra = false) : t.Honest := by
  obtain ⟨f, cs⟩ := t
  obtain rfl : cs = [] := hleaf
  exact .node (fun hpos => absurd hcost (Nat.ne_of_gt hpos))
    (fun he hx => absurd ((hl he).symm.trans hx) Bool.noConfusion) fun c hc => by cases hc

theorem honest_absent (s : Terminal) (p : Place) : (absent s p).Honest :=
  .node (fun _ => rfl) (fun hl => by cases hl) fun _ hc => by cases hc

theorem honest_build (l : Label) (n : Option Nat) (here : Place) (h : ∀ c ∈ cs, c.Honest) :
    (build l n here cs).Honest := by
  refine .node (fun hpos => ?_) (fun _ hx => by cases hx) h
  rcases exists_cost_of_build hpos with hl | ⟨c, hc, hcost⟩
  · exact hasFault_of_label hl
  · exact hasFault_of_child hc ((h c hc).hasFault hcost)

end SpanIndex.Syntax.Tree
