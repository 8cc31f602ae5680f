import SpanIndex.Proofs.Relabel
import SpanIndex.Proofs.Span

/-!
# Records and phrases at file scope

A file with an index has one package clause, and every phrase after it has one record, in the order of the
text. Three tables have to agree for that: the kinds that the scan lets through, those that are left out
when the records are made, and those that have a form. `Reported` says once which kind of record a phrase
may have.
-/

namespace SpanIndex

open Syntax (Node)

/-! ## Kinds of phrases and of records -/

/-- The kinds that a phrase may be reported as. A method with an odd receiver is a function, and the older
taxonomy has no kinds for constants and variables. -/
inductive Reported : Taxonomy → String → Kind → Prop
  | imports (t : Taxonomy) : Reported t "import_declaration" .imports
  | type (t : Taxonomy) : Reported t "type_declaration" .type
  | function (t : Taxonomy) : Reported t "function_declaration" .function
  | method (t : Taxonomy) : Reported t "method_declaration" .method
  | oddMethod (t : Taxonomy) : Reported t "method_declaration" .function
  | const : Reported .detailed "const_declaration" .constant
  | var : Reported .detailed "var_declaration" .variable
  | legacyConst : Reported .legacy "const_declaration" .unclassified
  | legacyVar : Reported .legacy "var_declaration" .unclassified

namespace Reported

variable {t : Taxonomy} {kind : String} {k : Kind}

theorem eq_imports_iff (h : Reported t kind k) : k = .imports ↔ kind = "import_declaration" := by
  cases h <;> simp

theorem ne_unclassified (h : Reported .detailed kind k) : k ≠ .unclassified := by
  cases h <;> simp

theorem ne_constant_and_ne_variable (h : Reported .legacy kind k) : k ≠ .constant ∧ k ≠ .variable := by
  cases h <;> simp

theorem eq_unclassified_iff (h : Reported .legacy kind k) :
    k = .unclassified ↔ kind = "const_declaration" ∨ kind = "var_declaration" := by
  cases h <;> simp

end Reported

/-- The record has the lines of a phrase and one of the kinds that the phrase may have. -/
structure Record.Reports (t : Taxonomy) (n : Node) (r : Record) : Prop where
  startLine_eq : r.startLine = n.startLine
  endLine_eq : r.endLine = n.endLine
  reported : Reported t n.kind r.kind

/-- Whatever the scan lets through after the package clause has a form, and so a kind. -/
theorem reported_describe {o : Options} {n : Node}
    (h : Part.ofKind n.kind = .imports ∨ Part.ofKind n.kind = .declaration) :
    Reported o.taxonomy n.kind (describe o n).1 := by
  rw [Part.ofKind_eq_imports, Part.ofKind_eq_declaration] at h
  unfold describe
  rcases h with hk | hk | hk | hk | hk | hk
  · rw [hk]
    exact .imports _
  · rw [hk]
    cases o.taxonomy with
    | detailed => exact .const
    | legacy => exact .legacyConst
  · rw [hk]
    exact .type _
  · rw [hk]
    cases o.taxonomy with
    | detailed => exact .var
    | legacy => exact .legacyVar
  · rw [hk]
    exact .function _
  · rw [hk]
    cases receiver? n with
    | none => exact .oddMethod _
    | some receiver => exact .method _

theorem Record.reports_ofNode {o : Options} {n : Node}
    (h : Part.ofKind n.kind = .imports ∨ Part.ofKind n.kind = .declaration) :
    Record.Reports o.taxonomy n (Record.ofNode o n) :=
  ⟨rfl, rfl, reported_describe h⟩

/-! ## Phrases in order -/

/-- The phrases of a file in order: the package clause, the imports, and the other declarations. -/
theorem Syntax.Node.InLayout.phrases_eq {root : Node} (h : root.InLayout) :
    ∃ clause imports later, root.phrases = clause :: (imports ++ later)
      ∧ clause.kind = "package_clause" ∧ (∀ n ∈ imports, Part.ofKind n.kind = .imports)
      ∧ ∀ n ∈ later, Part.ofKind n.kind = .declaration := by
  obtain ⟨kinds, hkinds, _, _, rfl, himports, hlater⟩ := mem_fileLayout_iff.mp h
  obtain ⟨clause, nodes, hphrases, hclause, hnodes⟩ := List.map_eq_cons_iff.mp hkinds
  obtain ⟨imports, later, rfl, rfl, rfl⟩ := List.map_eq_append_iff.mp hnodes
  exact ⟨clause, imports, later, hphrases, hclause, List.forall_mem_map.mp himports,
    List.forall_mem_map.mp hlater⟩

/-- Where nothing but the first phrase is a package clause, the rest of them are reported. -/
theorem declarationNodes_eq {root clause : Node} {nodes : List Node}
    (h : root.phrases = clause :: nodes) (hclause : clause.kind = "package_clause")
    (hnodes : ∀ n ∈ nodes, n.kind ≠ "package_clause") : declarationNodes root = nodes := by
  rw [declarationNodes, h, List.filter_cons_of_neg (by simp [hclause]), List.filter_eq_self]
  intro n hn
  exact bne_iff_ne.mpr (hnodes n hn)

/-- The search for package clauses may leave out all that is no phrase. -/
theorem filter_package_rootOf (source : List Char) :
    (Syntax.rootOf source).children.filter (·.kind == "package_clause")
      = (Syntax.rootOf source).phrases.filter (·.kind == "package_clause") := by
  rw [Node.phrases, List.filter_filter]
  refine List.filter_congr fun c hc => ?_
  by_cases hk : c.kind = "package_clause"
  · have hphrase := (List.mem_filter.mp (mem_phrases_rootOf hc hk)).2
    rw [hphrase, Bool.and_true]
  · simp [hk]

theorem filter_package_eq {source : List Char} {clause : Node} {nodes : List Node}
    (h : (Syntax.rootOf source).phrases = clause :: nodes) (hclause : clause.kind = "package_clause")
    (hnodes : ∀ n ∈ nodes, n.kind ≠ "package_clause") :
    (Syntax.rootOf source).children.filter (·.kind == "package_clause") = [clause] := by
  rw [filter_package_rootOf, h, List.filter_cons_of_pos (by simp [hclause]), List.filter_eq_nil_iff.mpr]
  intro n hn
  simp [hnodes n hn]

/-! ## Files with an index -/

namespace Index

variable {o : Options} {source : List Char} {i : Index}

/-- The records of a file are made of the phrases after its only package clause: of the imports, and then
of the other declarations. -/
theorem declarations_eq (h : ofSource o source = .ok i) :
    ∃ clause imports later, (Syntax.rootOf source).phrases = clause :: (imports ++ later)
      ∧ (Syntax.rootOf source).children.filter (·.kind == "package_clause") = [clause]
      ∧ i.declarations = (imports ++ later).map (Record.ofNode o)
      ∧ (∀ n ∈ imports, Part.ofKind n.kind = .imports)
      ∧ ∀ n ∈ later, Part.ofKind n.kind = .declaration := by
  obtain ⟨-, hlayout, -, hdeclarations⟩ := of_ofSource h
  obtain ⟨clause, imports, later, hphrases, hclause, himports, hlater⟩ := hlayout.phrases_eq
  have hnodes : ∀ n ∈ imports ++ later, n.kind ≠ "package_clause" := by
    intro n hn hkind
    have hpackage := Part.ofKind_eq_package.mpr hkind
    rcases List.mem_append.mp hn with hn | hn
    · exact absurd (hpackage.symm.trans (himports n hn)) (by decide)
    · exact absurd (hpackage.symm.trans (hlater n hn)) (by decide)
  rw [classify, declarationNodes_eq hphrases hclause hnodes] at hdeclarations
  exact ⟨clause, imports, later, hphrases, filter_package_eq hphrases hclause hnodes, hdeclarations,
    himports, hlater⟩

/-- The records of a file are those of the phrases after its only package clause, one for each and in their
order. Imports come first, and only the older taxonomy leaves constants and variables unclassified. -/
theorem ofSource_reports (h : ofSource o source = .ok i) :
    ∃ clause nodes,
      (Syntax.rootOf source).children.filter (fun c => c.named && !c.isComment) = clause :: nodes
        ∧ (Syntax.rootOf source).children.filter (·.kind == "package_clause") = [clause]
        ∧ List.Forall₂ (Record.Reports o.taxonomy) nodes i.declarations
        ∧ (∃ imports rest, i.declarations = imports ++ rest
          ∧ (∀ r ∈ imports, r.kind = .imports) ∧ ∀ r ∈ rest, r.kind ≠ .imports)
        ∧ (o.taxonomy = .detailed → ∀ r ∈ i.declarations, r.kind ≠ .unclassified)
        ∧ (o.taxonomy = .legacy →
          (∀ r ∈ i.declarations, r.kind ≠ .constant ∧ r.kind ≠ .variable)
            ∧ List.Forall₂ (fun n r => r.kind = .unclassified
              ↔ n.kind = "const_declaration" ∨ n.kind = "var_declaration") nodes i.declarations) := by
  obtain ⟨clause, imports, later, hphrases, hpackage, hdeclarations, himports, hlater⟩ := declarations_eq h
  have hearly : ∀ n ∈ imports, Record.Reports o.taxonomy n (Record.ofNode o n) :=
    fun n hn => Record.reports_ofNode (Or.inl (himports n hn))
  have hlate : ∀ n ∈ later, Record.Reports o.taxonomy n (Record.ofNode o n) :=
    fun n hn => Record.reports_ofNode (Or.inr (hlater n hn))
  have hreports := List.forall_mem_append.mpr ⟨hearly, hlate⟩
  refine ⟨clause, imports ++ later, hphrases, hpackage, ?_, ?_, ?_, ?_⟩
  · rw [hdeclarations, List.forall₂_map_right_iff, List.forall₂_same]
    exact hreports
  · refine ⟨imports.map (Record.ofNode o), later.map (Record.ofNode o), ?_, ?_, ?_⟩
    · rw [hdeclarations, List.map_append]
    · rw [List.forall_mem_map]
      intro n hn
      exact (hearly n hn).reported.eq_imports_iff.mpr (Part.ofKind_eq_imports.mp (himports n hn))
    · rw [List.forall_mem_map]
      intro n hn hkind
      have hpart := Part.ofKind_eq_imports.mpr ((hlate n hn).reported.eq_imports_iff.mp hkind)
      rw [hlater n hn] at hpart
      cases hpart
  · intro htaxonomy
    rw [htaxonomy] at hreports
    rw [hdeclarations, List.forall_mem_map]
    intro n hn
    exact (hreports n hn).reported.ne_unclassified
  · intro htaxonomy
    rw [htaxonomy] at hreports
    rw [hdeclarations, List.forall_mem_map, List.forall₂_map_right_iff, List.forall₂_same]
    constructor
    · intro n hn
      exact (hreports n hn).reported.ne_constant_and_ne_variable
    · intro n hn
      exact (hreports n hn).reported.eq_unclassified_iff

/-- The crowded file under the older taxonomy. -/
def legacyIndex : Index :=
  ⟨['p'], [⟨.unclassified, 2, 2, none⟩, ⟨.method, 2, 3, some ['T', '.', 'f']⟩]⟩

theorem ofSource_crowded_legacy : ofSource ⟨.legacy, true⟩ crowded = .ok legacyIndex := by
  rw [relabel_ofSource (o := {}) fun _ _ _ => Record.ofNode_legacy, ofSource_crowded]
  rfl

theorem ofSource_reports_crowded :
    ofSource ⟨.legacy, true⟩ crowded = .ok legacyIndex
      ∧ ∃ clause nodes,
        (Syntax.rootOf crowded).children.filter (fun c => c.named && !c.isComment) = clause :: nodes
          ∧ (Syntax.rootOf crowded).children.filter (·.kind == "package_clause") = [clause]
          ∧ List.Forall₂ (Record.Reports .legacy) nodes legacyIndex.declarations
          ∧ List.Forall₂ (fun n r => r.kind = .unclassified
            ↔ n.kind = "const_declaration" ∨ n.kind = "var_declaration") nodes
            legacyIndex.declarations := by
  obtain ⟨clause, nodes, hphrases, hpackage, hreports, -, -, hlegacy⟩ :=
    ofSource_reports ofSource_crowded_legacy
  exact ⟨ofSource_crowded_legacy, clause, nodes, hphrases, hpackage, hreports, (hlegacy rfl).2⟩

end Index

end SpanIndex
