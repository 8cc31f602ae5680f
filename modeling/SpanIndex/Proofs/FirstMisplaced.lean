import SpanIndex.Proofs.Layout

/-!
# The first phrase out of order

The scan over the phrases at file scope knows only how far the file has got (`Stage`). It stops at the first
phrase with which the phrases so far are no longer the beginning of a file, and what it says of this phrase
follows from its kind and from whether anything stands before it.
-/

namespace SpanIndex

open Syntax (Node)

/-! ## Beginnings of files -/

/-- The kinds are in the order of a file, or there are none. -/
def InFileOrder (kinds : List String) : Prop := kinds = [] ∨ kinds ∈ fileLayout.matches'

/-- Of the nodes, the one at the position `j` is the first that is out of order. -/
structure FirstMisplaced (nodes : List Node) (j : Nat) (n : Node) : Prop where
  at_eq : nodes[j]? = some n
  misplaced : ¬ InFileOrder ((nodes.map (·.kind)).take (j + 1))
  first : ∀ i < j, InFileOrder ((nodes.map (·.kind)).take (i + 1))

/-- What is said of a node that is the first out of order, at the position `j`. -/
def complaint (j : Nat) (n : Node) : List Char :=
  if j = 0 then "expected `package`, found `".toList ++ snippet n.text ++ "`".toList
  else if n.kind = "package_clause" then "expected declaration, found `package`".toList
  else if n.kind = "import_declaration" then "imports must appear before other declarations".toList
  else "non-declaration statement outside function body: `".toList ++ snippet n.text ++ "`".toList

theorem inFileOrder_iff {ns : List Node} :
    InFileOrder (ns.map (·.kind)) ↔ layoutFaultFrom .beforePackage ns = none := by
  rw [layoutFaultFrom_eq_none_iff, InFileOrder, List.map_eq_nil_iff]

/-! ## Stages -/

/-- The nodes take the scan from one stage to another. -/
inductive Stage.Reaches : Stage → List Node → Stage → Prop
  | refl (s : Stage) : Reaches s [] s
  | step {s s' t : Stage} {n : Node} {ns : List Node} (next : s.next n = .ok s')
      (rest : Reaches s' ns t) : Reaches s (n :: ns) t

section Stages

variable {s t : Stage} {n : Node} {ns : List Node}

/-- The scan of more nodes goes on from the stage that was reached. -/
theorem Stage.Reaches.layoutFaultFrom_append (h : s.Reaches ns t) (ms : List Node) :
    layoutFaultFrom s (ns ++ ms) = layoutFaultFrom t ms := by
  induction h with
  | refl s => rfl
  | step next rest ih =>
    rw [List.cons_append, layoutFaultFrom, next]
    exact ih

/-- A fault is that of one node, and those before it have taken the scan to some stage. -/
theorem exists_of_layoutFaultFrom {f : Located LayoutFault} (h : layoutFaultFrom s ns = some f) :
    ∃ before n after t, ns = before ++ n :: after ∧ s.Reaches before t
      ∧ t.next n = .error f.cause ∧ f.line = n.startLine := by
  induction ns generalizing s with
  | nil => cases h
  | cons n ns ih =>
    rw [layoutFaultFrom] at h
    cases hnext : s.next n with
    | error fault =>
      rw [hnext] at h
      cases h
      exact ⟨[], n, ns, s, rfl, .refl s, hnext, rfl⟩
    | ok s' =>
      rw [hnext] at h
      obtain ⟨before, m, after, t, rfl, hreaches, herror, hline⟩ := ih h
      exact ⟨n :: before, m, after, t, rfl, .step hnext hreaches, herror, hline⟩

/-- What is let through is let through up to any of its nodes. -/
theorem layoutFaultFrom_take {k : Nat} (h : layoutFaultFrom s ns = none) :
    layoutFaultFrom s (ns.take k) = none := by
  induction ns generalizing s k with
  | nil => rw [List.take_nil, layoutFaultFrom_nil]
  | cons n ns ih =>
    cases k with
    | zero => rw [List.take_zero, layoutFaultFrom_nil]
    | succ k =>
      obtain ⟨s', hnext, hns⟩ := layoutFaultFrom_cons_eq_none_iff.mp h
      exact layoutFaultFrom_cons_eq_none_iff.mpr ⟨s', hnext, ih hns⟩

/-- No node leads back to the stage before the package clause. -/
theorem Stage.next_ne_beforePackage {s' : Stage} (h : s.next n = .ok s') : s' ≠ .beforePackage := by
  rintro rfl
  simp [next_eq_ok_iff] at h

theorem Stage.Reaches.eq_beforePackage_iff (h : s.Reaches ns t) :
    t = .beforePackage ↔ s = .beforePackage ∧ ns = [] := by
  induction h with
  | refl s => simp
  | step next rest ih => simp [ih, Stage.next_ne_beforePackage next]

/-- The ways in which a node can be out of order. -/
theorem Stage.of_next_eq_error {fault : LayoutFault} (h : t.next n = .error fault) :
    (t = .beforePackage ∧ fault = .beforePackage (snippet n.text))
      ∨ (t ≠ .beforePackage ∧ n.kind = "package_clause" ∧ fault = .secondPackage)
      ∨ (t ≠ .beforePackage ∧ n.kind = "import_declaration" ∧ fault = .lateImport)
      ∨ (t ≠ .beforePackage ∧ n.kind ≠ "package_clause" ∧ n.kind ≠ "import_declaration"
        ∧ fault = .notDeclaration (snippet n.text)) := by
  simp only [ne_eq, ← Part.ofKind_eq_package, ← Part.ofKind_eq_imports]
  unfold next at h
  cases t <;> cases hpart : Part.ofKind n.kind <;> simp [hpart] at h ⊢ <;> exact h.symm

/-- What is said of a node depends on its kind, and on whether it is the first one. -/
theorem Stage.message_of_next {j : Nat} {fault : LayoutFault} (h : t.next n = .error fault)
    (hj : t = .beforePackage ↔ j = 0) : fault.message = complaint j n := by
  unfold complaint
  rcases of_next_eq_error h with ⟨ht, rfl⟩ | ⟨ht, hk, rfl⟩ | ⟨ht, hk, rfl⟩ | ⟨ht, hpackage, himports, rfl⟩
  · rw [if_pos (hj.mp ht)]
    rfl
  · rw [if_neg (mt hj.mpr ht), if_pos hk]
    rfl
  · rw [if_neg (mt hj.mpr ht), if_neg (by simp [hk]), if_pos hk]
    rfl
  · rw [if_neg (mt hj.mpr ht), if_neg hpackage, if_neg himports]
    rfl

end Stages

/-! ## The scan -/

/-- The node that the scan stops at is the first one out of order. -/
theorem firstMisplaced_of_next {before after : List Node} {n : Node} {t : Stage} {fault : LayoutFault}
    (hreaches : Stage.beforePackage.Reaches before t) (hnext : t.next n = .error fault) :
    FirstMisplaced (before ++ n :: after) before.length n := by
  have hbefore : layoutFaultFrom .beforePackage before = none := by
    have h := hreaches.layoutFaultFrom_append []
    rwa [List.append_nil] at h
  refine ⟨by simp, ?_, fun i hi => ?_⟩
  · -- the scan of the nodes up to `n` stops at `n`
    have htake : (before ++ n :: after).take (before.length + 1) = before ++ [n] := by
      rw [List.append_cons, List.take_left' (by simp)]
    rw [← List.map_take, htake, inFileOrder_iff, hreaches.layoutFaultFrom_append,
      layoutFaultFrom_cons_eq_none_iff, hnext]
    simp
  · -- shorter beginnings are beginnings of what was let through
    rw [← List.map_take, List.take_append_of_le_length hi, inFileOrder_iff]
    exact layoutFaultFrom_take hbefore

/-- Nothing is found if the phrases at file scope are in order or there are none. Otherwise the first phrase
out of order is found, with its line, and what is said of it follows from its kind and position. -/
theorem firstLayoutFault_firstMisplaced (root : Node) :
    (firstLayoutFault root = none ↔ InFileOrder (root.phrases.map (·.kind)))
      ∧ (InFileOrder (root.phrases.map (·.kind))
        ∨ ∃ j n f, FirstMisplaced root.phrases j n ∧ firstLayoutFault root = some f
          ∧ f.line = lineOfRow n.startRow ∧ f.cause.message = complaint j n) := by
  have hnone : firstLayoutFault root = none ↔ InFileOrder (root.phrases.map (·.kind)) :=
    inFileOrder_iff.symm
  refine ⟨hnone, ?_⟩
  cases hscan : firstLayoutFault root with
  | none => exact Or.inl (hnone.mp hscan)
  | some f =>
    obtain ⟨before, n, after, t, hphrases, hreaches, hnext, hline⟩ := exists_of_layoutFaultFrom hscan
    -- the stage tells whether anything stands before `n`
    have hstage : t = .beforePackage ↔ before.length = 0 := by
      rw [hreaches.eq_beforePackage_iff, List.length_eq_zero_iff]
      exact and_iff_right rfl
    refine Or.inr ⟨before.length, n, f, ?_, rfl, hline, Stage.message_of_next hnext hstage⟩
    rw [hphrases]
    exact firstMisplaced_of_next hreaches hnext

end SpanIndex
