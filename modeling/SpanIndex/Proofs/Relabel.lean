import SpanIndex.Proofs.Declaration

/-!
# Options only relabel

Whether a file has an index, its package and the lines of its records do not depend on the options. The
taxonomy decides only which kinds are told apart, and the choice to qualify methods only what stands before
the name of a method.
-/

namespace SpanIndex

open Syntax (Node)

/-! ## Other labels -/

/-- The older taxonomy has no kind for constants and none for variables. -/
def Kind.toLegacy : Kind → Kind
  | .constant | .variable => .unclassified
  | k => k

def Record.toLegacy (r : Record) : Record := { r with kind := r.kind.toLegacy }

/-- The part of a name after its first dot. -/
def afterDot (name : List Char) : List Char := (name.dropWhile (· != '.')).drop 1

/-- A method without its receiver; all other records as they are. -/
def Record.unqualified (r : Record) : Record :=
  if r.kind = .method then { r with name := r.name.map afterDot } else r

/-- Changes every record. -/
def Index.relabel (f : Record → Record) (i : Index) : Index :=
  { i with declarations := i.declarations.map f }

/-- What is left of an index without its labels. -/
def Index.outline (i : Index) : List Char × List (UInt32 × UInt32) :=
  (i.package, i.declarations.map fun r => (r.startLine, r.endLine))

/-! ## Records -/

section Records

variable {n : Node} {q : Bool} {t : Taxonomy}

theorem describe_legacy : describe ⟨.legacy, q⟩ n
    = ((describe ⟨.detailed, q⟩ n).1.toLegacy, (describe ⟨.detailed, q⟩ n).2) := by
  unfold describe
  cases Form.ofKind n.kind with
  | group k => cases k <;> rfl
  | function => rfl
  | method => cases receiver? n <;> rfl
  | other => rfl

theorem Record.ofNode_legacy :
    Record.ofNode ⟨.legacy, q⟩ n = (Record.ofNode ⟨.detailed, q⟩ n).toLegacy := by
  rw [Record.ofNode, describe_legacy]
  rfl

theorem afterDot_append {receiver name : List Char} (h : '.' ∉ receiver) :
    afterDot (receiver ++ '.' :: name) = name := by
  rw [afterDot, Record.dropWhile_bne h, List.drop_one, List.tail_cons]

theorem Record.ofNode_unqualified {source : List Char} (hfit : (Syntax.rootOf source).Fits)
    (hn : n ∈ (Syntax.rootOf source).children) :
    Record.ofNode ⟨t, false⟩ n = (Record.ofNode ⟨t, true⟩ n).unqualified := by
  unfold Record.ofNode describe
  cases Form.ofKind n.kind with
  | group k => cases t <;> cases k <;> rfl
  | function => rfl
  | method =>
    cases hreceiver : receiver? n with
    | none => rfl
    | some receiver =>
      -- the first dot is the one that was put there
      have hdot : '.' ∉ receiver := Text.not_mem_of_isIdentifier
        (isIdentifier_receiver hfit (.child hn) hreceiver) (by decide)
      cases ownName? n with
      | none => rfl
      | some own => simp [Record.unqualified, qualify, afterDot_append hdot]
  | other => rfl

end Records

/-! ## Files -/

namespace Index

variable {α : Type} {o o' : Options} {source : List Char}

/-- The options matter only where the records are made. -/
theorem map_ofSource {f g : Index → α} (h : (Syntax.rootOf source).Fits → ∀ package,
      f ⟨package, classify o (Syntax.rootOf source)⟩ = g ⟨package, classify o' (Syntax.rootOf source)⟩) :
    (ofSource o source).map f = (ofSource o' source).map g := by
  have hfits := firstSyntaxFault_eq_none_iff (Syntax.rootOf source)
  unfold ofSource ofTree
  cases hf : firstSyntaxFault (Syntax.rootOf source) with
  | some fault => rfl
  | none =>
    cases packageName? (Syntax.rootOf source) with
    | none => rfl
    | some package =>
      cases firstLayoutFault (Syntax.rootOf source) with
      | some fault => rfl
      | none => exact congrArg Except.ok (h (hfits.mp hf) package)

theorem relabel_classify {f : Record → Record} {root : Node} (package : List Char)
    (h : ∀ n ∈ root.children, Record.ofNode o' n = f (Record.ofNode o n)) :
    relabel f ⟨package, classify o root⟩ = ⟨package, classify o' root⟩ := by
  have hrecords : (classify o root).map f = classify o' root := by
    rw [classify, classify, List.map_map]
    exact List.map_congr_left fun n hn => (h n ((declarationNodes_sublist root).mem hn)).symm
  rw [relabel, hrecords]

theorem relabel_ofSource {f : Record → Record} (h : (Syntax.rootOf source).Fits →
      ∀ n ∈ (Syntax.rootOf source).children, Record.ofNode o' n = f (Record.ofNode o n)) :
    ofSource o' source = (ofSource o source).map (relabel f) := by
  have hmap : (ofSource o source).map (relabel f) = (ofSource o' source).map id :=
    map_ofSource fun hfit package => relabel_classify package (h hfit)
  rw [hmap, Except.map_id, id]

theorem outline_classify (o o' : Options) (package : List Char) (root : Node) :
    outline ⟨package, classify o root⟩ = outline ⟨package, classify o' root⟩ := by
  simp only [outline, classify, List.map_map]
  rfl

/-- Options change neither the errors nor the outline of an index. The older taxonomy forgets two kinds,
and without qualification the methods lose their receivers. -/
theorem ofSource_relabels (source path : List Char) :
    (∀ o o' : Options,
        ((ofSource o source).map outline).mapError (fun e => (e, e.message path))
          = ((ofSource o' source).map outline).mapError (fun e => (e, e.message path)))
      ∧ (∀ q : Bool, ofSource ⟨.legacy, q⟩ source
          = (ofSource ⟨.detailed, q⟩ source).map (relabel Record.toLegacy))
      ∧ ∀ t : Taxonomy, ofSource ⟨t, false⟩ source
          = (ofSource ⟨t, true⟩ source).map (relabel Record.unqualified) := by
  refine ⟨fun o o' => ?_, fun q => ?_, fun t => ?_⟩
  · rw [map_ofSource fun _ package => outline_classify o o' package _]
  · exact relabel_ofSource fun _ n _ => Record.ofNode_legacy
  · exact relabel_ofSource fun hfit n hn => Record.ofNode_unqualified hfit hn

end Index

end SpanIndex
