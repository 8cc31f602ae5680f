import SpanIndex.Proofs.Layout

/-!
# The first node that does not fit

The nodes of a tree stand in the order of the text: a node comes before its children, and they come one after
the other. The search for a fault goes through the nodes below the root in this order and reports the first
that does not fit (`FirstFault`).

The root itself is never looked at. Where no way is found to go on, the whole text becomes one node that does not
fit; if all that is below it fits, the file is taken for a sound one.
-/

namespace SpanIndex

open Syntax (Node)

/-! ## Nodes in order -/

mutual

/-- The nodes of a tree in the order of the text. -/
def Syntax.Node.preorder : Node → List Node
  | n@(.mk _ _ _ _ _ _ _ children) => n :: preorderAll children

/-- The nodes of trees that follow each other, in the order of the text. -/
def Syntax.Node.preorderAll : List Node → List Node
  | [] => []
  | n :: ns => n.preorder ++ preorderAll ns

end

/-- The nodes below the root of a tree, in the order of the text. -/
def Syntax.Node.descendants (n : Node) : List Node := Node.preorderAll n.children

theorem Syntax.Node.preorder_eq (n : Node) : n.preorder = n :: n.descendants := by
  cases n
  rw [preorder]
  rfl

/-! ## What is said of a node -/

/-- The fault has the line of the node, and its text quotes the kind of a missing node and the beginning of any
other. -/
structure Located.Describes (f : Located SyntaxFault) (n : Node) : Prop where
  line_eq : f.line = lineOfRow n.startRow
  missing : n.flag = .missing →
    f.cause.message = "missing `".toList ++ n.kind.toList ++ "`".toList
  unexpected : n.flag = .error →
    f.cause.message = "unexpected `".toList ++ snippet n.text ++ "`".toList

/-- The answer of a search through nodes in order: the first one that does not fit, or nothing if all of
them fit. -/
inductive FirstFault : List Node → Option (Located SyntaxFault) → Prop
  | nothing {ns : List Node} (fits : ∀ n ∈ ns, n.flag = .sound) : FirstFault ns none
  | found {before after : List Node} {n : Node} {f : Located SyntaxFault}
      (fits : ∀ m ∈ before, m.flag = .sound) (fault : n.flag ≠ .sound) (describes : f.Describes n) :
      FirstFault (before ++ n :: after) (some f)

namespace FirstFault

variable {n : Node} {ns ms : List Node} {a b : Option (Located SyntaxFault)} {f : Located SyntaxFault}

theorem cons (hn : n.flag = .sound) (h : FirstFault ns a) : FirstFault (n :: ns) a := by
  cases h with
  | nothing fits => exact .nothing (List.forall_mem_cons.mpr ⟨hn, fits⟩)
  | found fits fault describes =>
    rw [← List.cons_append]
    exact .found (List.forall_mem_cons.mpr ⟨hn, fits⟩) fault describes

theorem head (hn : n.flag ≠ .sound) (hf : f.Describes n) : FirstFault (n :: ns) (some f) := by
  rw [← List.nil_append (n :: ns)]
  exact .found (List.forall_mem_nil _) hn hf

/-- The search goes on behind nodes that fit. -/
theorem append (h : FirstFault ns a) (h' : FirstFault ms b) : FirstFault (ns ++ ms) (a <|> b) := by
  cases h with
  | nothing fits =>
    induction ns with
    | nil => exact h'
    | cons n ns ih =>
      obtain ⟨hn, hns⟩ := List.forall_mem_cons.mp fits
      exact (ih hns).cons hn
  | found fits fault describes =>
    rw [List.append_assoc]
    exact .found fits fault describes

/-- A node that does not fit and comes first is the one that is found. -/
theorem describes_head (h : FirstFault (n :: ns) a) (hn : n.flag ≠ .sound) :
    ∃ f, a = some f ∧ f.Describes n := by
  generalize hnodes : n :: ns = nodes at h
  cases h with
  | nothing fits => exact absurd (fits n (hnodes ▸ List.mem_cons_self)) hn
  | @found before after m f fits fault describes =>
    cases before with
    | nil =>
      obtain ⟨rfl, -⟩ := List.cons.inj hnodes
      exact ⟨f, rfl, describes⟩
    | cons x xs =>
      obtain ⟨rfl, -⟩ := List.cons.inj hnodes
      exact absurd (fits n List.mem_cons_self) hn

end FirstFault

/-! ## The search -/

mutual

theorem firstFault_faultIn : ∀ n : Node, FirstFault n.preorder (faultIn n)
  | .mk _ _ .sound _ _ _ _ children => by
    rw [Syntax.Node.preorder, faultIn]
    exact (firstFault_faultAmong children).cons rfl
  | .mk _ _ .missing _ _ _ _ _ => by
    rw [Syntax.Node.preorder, faultIn]
    exact .head nofun ⟨rfl, fun _ => rfl, nofun⟩
  | .mk _ _ .error _ _ _ _ _ => by
    rw [Syntax.Node.preorder, faultIn]
    exact .head nofun ⟨rfl, nofun, fun _ => rfl⟩

theorem firstFault_faultAmong : ∀ ns : List Node, FirstFault (Node.preorderAll ns) (faultAmong ns)
  | [] => .nothing (List.forall_mem_nil _)
  | n :: ns => by
    have h := (firstFault_faultIn n).append (firstFault_faultAmong ns)
    rw [Syntax.Node.preorderAll, faultAmong]
    cases hf : faultIn n with
    | none =>
      rw [hf] at h
      exact h
    | some f =>
      rw [hf] at h
      exact h

end

/-- The search finds the first node below the root that does not fit. This is the first one of the whole tree
just if the root fits, or if what is found happens to describe the root as well. -/
theorem firstFault_firstSyntaxFault (root : Node) :
    FirstFault root.descendants (firstSyntaxFault root)
      ∧ (FirstFault root.preorder (firstSyntaxFault root)
        ↔ root.flag = .sound ∨ ∃ f, firstSyntaxFault root = some f ∧ f.Describes root) := by
  have hbelow : FirstFault root.descendants (firstSyntaxFault root) :=
    firstFault_faultAmong root.children
  refine ⟨hbelow, ?_⟩
  rw [root.preorder_eq]
  by_cases hroot : root.flag = .sound
  · exact ⟨fun _ => Or.inl hroot, fun _ => hbelow.cons hroot⟩
  · constructor
    · intro h
      exact Or.inr (h.describes_head hroot)
    · rintro (hsound | ⟨f, hf, hdescribes⟩)
      · exact absurd hsound hroot
      · rw [hf]
        exact .head hroot hdescribes

/-- A file whose parentheses are open at its end, too deep to find a way back. -/
def unclosed : List Char := "package p\n((((((((((((((((((((".toList

set_option maxRecDepth 100000 in
theorem rootOf_unclosed : (Syntax.rootOf unclosed).flag = .error
    ∧ Index.ofSource {} unclosed = .ok ⟨['p'], []⟩ := by decide +kernel

/-- The whole of this text does not fit, and yet nothing is found and the file has an index. -/
theorem not_firstFault_unclosed :
    (Syntax.rootOf unclosed).flag = .error
      ∧ firstSyntaxFault (Syntax.rootOf unclosed) = none
      ∧ ¬ FirstFault (Syntax.rootOf unclosed).preorder (firstSyntaxFault (Syntax.rootOf unclosed))
      ∧ Index.ofSource {} unclosed = .ok ⟨['p'], []⟩ := by
  obtain ⟨hflag, hindex⟩ := rootOf_unclosed
  have hfault : firstSyntaxFault (Syntax.rootOf unclosed) = none :=
    (firstSyntaxFault_eq_none_iff _).mpr (Index.of_ofSource hindex).1
  refine ⟨hflag, hfault, ?_, hindex⟩
  rw [hfault, Syntax.Node.preorder_eq]
  intro h
  obtain ⟨f, hf, -⟩ := h.describes_head (by rw [hflag]; exact nofun)
  cases hf

end SpanIndex
