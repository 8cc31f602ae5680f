import Mathlib.Computability.RegularExpressions
import SpanIndex.Index
import SpanIndex.Proofs.Syntax.Phrase

/-!
# Which files have an index

Three checks stand before an index: the search for a node that does not fit the grammar, the search for
the name of the package, and the scan over the phrases at file scope. Together they accept the files whose
tree fits everywhere and whose phrases at file scope are a word of `fileLayout`, and the first check that
fails gives the error.
-/

namespace SpanIndex

open Syntax (Node)

/-! ## Nodes that do not fit -/

/-- `m` stands below `n` in a tree. -/
inductive Syntax.Node.Below : Node → Node → Prop
  | child {m n : Node} (h : m ∈ n.children) : Below m n
  | deeper {m c n : Node} (h : c ∈ n.children) (below : Below m c) : Below m n

/-- Everything below a node fits the grammar. -/
def Syntax.Node.Fits (n : Node) : Prop := ∀ m : Node, m.Below n → m.flag = .sound

theorem Syntax.Node.fits_iff {n : Node} :
    n.Fits ↔ ∀ c ∈ n.children, c.flag = .sound ∧ c.Fits := by
  constructor
  · intro h c hc
    exact ⟨h c (.child hc), fun m hm => h m (.deeper hc hm)⟩
  · intro h m hm
    cases hm with
    | child hm => exact (h m hm).1
    | deeper hc hm => exact (h _ hc).2 m hm

mutual

theorem faultIn_eq_none_iff : ∀ n : Node, faultIn n = none ↔ n.flag = .sound ∧ n.Fits
  | .mk _ _ flag _ _ _ _ children => by
    rw [Syntax.Node.fits_iff, ← faultAmong_eq_none_iff children]
    cases flag <;> simp [faultIn]

theorem faultAmong_eq_none_iff :
    ∀ ns : List Node, faultAmong ns = none ↔ ∀ n ∈ ns, n.flag = .sound ∧ n.Fits
  | [] => by simp [faultAmong]
  | n :: ns => by
    rw [faultAmong, List.forall_mem_cons, ← faultIn_eq_none_iff n, ← faultAmong_eq_none_iff ns]
    cases faultIn n <;> simp

end

theorem firstSyntaxFault_eq_none_iff (root : Node) : firstSyntaxFault root = none ↔ root.Fits :=
  (faultAmong_eq_none_iff root.children).trans Syntax.Node.fits_iff.symm

/-! ## The order of phrases -/

section Expression

open RegularExpression

/-- One of the declarations that are no imports. -/
def laterDeclaration : RegularExpression String :=
  char "const_declaration" + char "type_declaration" + char "var_declaration"
    + char "function_declaration" + char "method_declaration"

/-- The order of the phrases at file scope, told by their kinds. -/
def fileLayout : RegularExpression String :=
  char "package_clause" * star (char "import_declaration") * star laterDeclaration

end Expression

/-- The phrases at file scope are in order. -/
def Syntax.Node.InLayout (root : Node) : Prop :=
  root.phrases.map (·.kind) ∈ fileLayout.matches'

variable {α : Type} {kinds : List String}

theorem mem_char_iff {a : α} {w : List α} :
    w ∈ (RegularExpression.char a).matches' ↔ w = [a] := Iff.rfl

/-- Where an expression stands for single letters, its star stands for the words of such letters. -/
theorem mem_star_iff {e : RegularExpression α} {p : α → Prop}
    (h : ∀ w, w ∈ e.matches' ↔ ∃ a, w = [a] ∧ p a) {w : List α} :
    w ∈ e.star.matches' ↔ ∀ a ∈ w, p a := by
  rw [RegularExpression.matches'_star, Language.mem_kstar]
  constructor
  · rintro ⟨ws, rfl, hws⟩ b hb
    obtain ⟨v, hv, hbv⟩ := List.mem_flatten.mp hb
    obtain ⟨a, rfl, ha⟩ := (h v).mp (hws v hv)
    rw [List.mem_singleton] at hbv
    exact hbv ▸ ha
  · intro hw
    refine ⟨w.map ([·]), (List.flatMap_singleton' w).symm, ?_⟩
    intro v hv
    obtain ⟨a, ha, rfl⟩ := List.mem_map.mp hv
    exact (h [a]).mpr ⟨a, rfl, hw a ha⟩

theorem Part.ofKind_eq_package {kind : String} :
    Part.ofKind kind = .package ↔ kind = "package_clause" := by
  unfold Part.ofKind
  split_ifs <;> simp_all

theorem Part.ofKind_eq_imports {kind : String} :
    Part.ofKind kind = .imports ↔ kind = "import_declaration" := by
  unfold Part.ofKind
  split_ifs <;> simp_all

theorem Part.ofKind_eq_declaration {kind : String} :
    Part.ofKind kind = .declaration ↔ kind = "const_declaration" ∨ kind = "type_declaration"
      ∨ kind = "var_declaration" ∨ kind = "function_declaration" ∨ kind = "method_declaration" := by
  unfold Part.ofKind
  split_ifs <;> simp_all

theorem mem_laterDeclaration_iff {w : List String} :
    w ∈ laterDeclaration.matches' ↔ ∃ k, w = [k] ∧ Part.ofKind k = .declaration := by
  simp only [laterDeclaration, RegularExpression.matches'_add, Language.mem_add, mem_char_iff,
    Part.ofKind_eq_declaration]
  grind

/-- Imports stand before all other declarations, and there is nothing else. -/
def ImportsFirst (kinds : List String) : Prop :=
  ∃ imports rest, kinds = imports ++ rest
    ∧ (∀ k ∈ imports, Part.ofKind k = .imports) ∧ ∀ k ∈ rest, Part.ofKind k = .declaration

theorem mem_fileLayout_iff : kinds ∈ fileLayout.matches'
    ↔ ∃ ks, kinds = "package_clause" :: ks ∧ ImportsFirst ks := by
  have himports : ∀ w, w ∈ (RegularExpression.char "import_declaration").matches'
      ↔ ∃ k, w = [k] ∧ Part.ofKind k = .imports := by
    intro w
    simp only [mem_char_iff, Part.ofKind_eq_imports, exists_eq_right]
  have hrest := fun w => mem_laterDeclaration_iff (w := w)
  simp only [fileLayout, RegularExpression.matches'_mul, Language.mem_mul, mem_char_iff,
    mem_star_iff himports, mem_star_iff hrest]
  constructor
  · rintro ⟨_, ⟨_, rfl, imports, hi, rfl⟩, rest, hr, rfl⟩
    exact ⟨_, rfl, imports, rest, rfl, hi, hr⟩
  · rintro ⟨_, rfl, imports, rest, rfl, hi, hr⟩
    exact ⟨_, ⟨_, rfl, imports, hi, rfl⟩, rest, hr, rfl⟩

/-! ## The scan -/

section Scan

variable {n : Node} {ns : List Node}

/-- What leads from one stage to another. -/
theorem Stage.next_eq_ok_iff {s t : Stage} : s.next n = .ok t
    ↔ (s = .beforePackage ∧ Part.ofKind n.kind = .package ∧ t = .inImports)
      ∨ (s = .inImports ∧ Part.ofKind n.kind = .imports ∧ t = .inImports)
      ∨ (s ≠ .beforePackage ∧ Part.ofKind n.kind = .declaration ∧ t = .inDeclarations) := by
  unfold Stage.next
  cases s <;> cases Part.ofKind n.kind <;> simp [eq_comm]

@[simp] theorem layoutFaultFrom_nil (s : Stage) : layoutFaultFrom s [] = none := rfl

/-- The scan lets a node through if it leads to a stage from which the others are let through. -/
theorem layoutFaultFrom_cons_eq_none_iff {s : Stage} :
    layoutFaultFrom s (n :: ns) = none ↔ ∃ t, s.next n = .ok t ∧ layoutFaultFrom t ns = none := by
  rw [layoutFaultFrom]
  cases s.next n <;> simp

theorem layoutFaultFrom_inDeclarations :
    layoutFaultFrom .inDeclarations ns = none
      ↔ ∀ k ∈ ns.map (·.kind), Part.ofKind k = .declaration := by
  induction ns with
  | nil => simp
  | cons n ns ih =>
    rw [layoutFaultFrom_cons_eq_none_iff, List.map_cons, List.forall_mem_cons, ← ih]
    simp [Stage.next_eq_ok_iff]

/-- The first phrase after the package clause is an import, or all of them are declarations. -/
theorem importsFirst_cons {k : String} {ks : List String} :
    ImportsFirst (k :: ks) ↔ (Part.ofKind k = .imports ∧ ImportsFirst ks)
      ∨ (Part.ofKind k = .declaration ∧ ∀ l ∈ ks, Part.ofKind l = .declaration) := by
  constructor
  · rintro ⟨imports, rest, hks, hi, hr⟩
    rcases List.cons_eq_append_iff.mp hks with ⟨rfl, rfl⟩ | ⟨imports, rfl, rfl⟩
    · exact Or.inr (List.forall_mem_cons.mp hr)
    · obtain ⟨hk, hi⟩ := List.forall_mem_cons.mp hi
      exact Or.inl ⟨hk, imports, rest, rfl, hi, hr⟩
  · rintro (⟨hk, imports, rest, rfl, hi, hr⟩ | hr)
    · exact ⟨k :: imports, rest, rfl, List.forall_mem_cons.mpr ⟨hk, hi⟩, hr⟩
    · exact ⟨[], k :: ks, rfl, List.forall_mem_nil _, List.forall_mem_cons.mpr hr⟩

theorem layoutFaultFrom_inImports :
    layoutFaultFrom .inImports ns = none ↔ ImportsFirst (ns.map (·.kind)) := by
  induction ns with
  | nil => exact ⟨fun _ => ⟨[], [], rfl, by simp, by simp⟩, fun _ => rfl⟩
  | cons n ns ih =>
    rw [layoutFaultFrom_cons_eq_none_iff, List.map_cons, importsFirst_cons, ← ih,
      ← layoutFaultFrom_inDeclarations]
    simp [Stage.next_eq_ok_iff, or_and_right, exists_or]

theorem layoutFaultFrom_beforePackage :
    layoutFaultFrom .beforePackage (n :: ns) = none
      ↔ n.kind = "package_clause" ∧ layoutFaultFrom .inImports ns = none := by
  rw [layoutFaultFrom_cons_eq_none_iff, ← Part.ofKind_eq_package]
  simp [Stage.next_eq_ok_iff]

/-- The scan lets nodes through if there are none, or if their kinds are in the order of a file. -/
theorem layoutFaultFrom_eq_none_iff : layoutFaultFrom .beforePackage ns = none
    ↔ ns = [] ∨ ns.map (·.kind) ∈ fileLayout.matches' := by
  cases ns with
  | nil => simp
  | cons n ns =>
    rw [layoutFaultFrom_beforePackage, layoutFaultFrom_inImports, List.map_cons, mem_fileLayout_iff]
    simp [and_assoc]

end Scan

theorem firstLayoutFault_eq_none_iff {root : Node} (h : root.phrases ≠ []) :
    firstLayoutFault root = none ↔ root.InLayout :=
  layoutFaultFrom_eq_none_iff.trans (or_iff_right h)

theorem exists_packageClause {root : Node} (h : root.InLayout) :
    ∃ c ∈ root.children, c.kind = "package_clause" := by
  obtain ⟨ks, hks, -⟩ := mem_fileLayout_iff.mp h
  have hmem : "package_clause" ∈ root.phrases.map (·.kind) := hks ▸ List.mem_cons_self
  obtain ⟨c, hc, hk⟩ := List.mem_map.mp hmem
  exact ⟨c, (List.mem_filter.mp hc).1, hk⟩

/-! ## The package clause -/

section Package

variable {source : List Char}

/-- A package clause is a phrase, so the scan sees it. -/
theorem mem_phrases_rootOf {c : Node} (hc : c ∈ (Syntax.rootOf source).children)
    (hk : c.kind = "package_clause") : c ∈ (Syntax.rootOf source).phrases := by
  obtain ⟨t, ht⟩ := Syntax.shows_of_mem_rootOf hc
  have hnamed : c.named = true := ht.named_of_kind (d := .packageClause) (by decide) hk
  refine List.mem_filter.mpr ⟨hc, ?_⟩
  rw [hnamed, Node.isComment, hk]
  rfl

/-- A file has a package name if it has a package clause: there is no clause without a name. -/
theorem packageName?_rootOf_eq_none_iff (source : List Char) :
    packageName? (Syntax.rootOf source) = none
      ↔ ∀ c ∈ (Syntax.rootOf source).children, c.kind ≠ "package_clause" := by
  rw [packageName?, Option.map_eq_none_iff, firstOfKind?]
  cases hfind : (Syntax.rootOf source).children.find? (·.kind == "package_clause") with
  | none => simpa using hfind
  | some c =>
    have hc := List.mem_of_find?_eq_some hfind
    have hk : c.kind = "package_clause" := by simpa using List.find?_some hfind
    obtain ⟨t, ht⟩ := Syntax.shows_of_mem_rootOf hc
    obtain ⟨d, hd, hdk⟩ := ht.exists_packageName hk
    constructor
    · intro hnone
      exact absurd hdk (by simpa using List.find?_eq_none.mp hnone d hd)
    · intro hall
      exact absurd hk (hall c hc)

end Package

/-! ## Outcomes -/

namespace Index

variable {o : Options} {source : List Char} {i : Index}

/-- The four ways in which the checks can end. -/
theorem ofSource_cases (o : Options) (source : List Char) :
    (¬ (Syntax.rootOf source).Fits ∧ ∃ f, ofSource o source = .error (.syntaxFault f))
      ∨ ((Syntax.rootOf source).Fits
        ∧ (∀ c ∈ (Syntax.rootOf source).children, c.kind ≠ "package_clause")
        ∧ ofSource o source = .error .missingPackage)
      ∨ ((Syntax.rootOf source).Fits
        ∧ (∃ c ∈ (Syntax.rootOf source).children, c.kind = "package_clause")
        ∧ ¬ (Syntax.rootOf source).InLayout ∧ ∃ f, ofSource o source = .error (.layoutFault f))
      ∨ ((Syntax.rootOf source).Fits ∧ (Syntax.rootOf source).InLayout
        ∧ ∃ package, packageName? (Syntax.rootOf source) = some package
          ∧ ofSource o source = .ok ⟨package, classify o (Syntax.rootOf source)⟩) := by
  have hfits := firstSyntaxFault_eq_none_iff (Syntax.rootOf source)
  have hclause := packageName?_rootOf_eq_none_iff source
  unfold ofSource ofTree
  cases hf : firstSyntaxFault (Syntax.rootOf source) with
  | some f =>
    rw [hf] at hfits
    exact Or.inl ⟨fun h => Option.some_ne_none f (hfits.mpr h), f, rfl⟩
  | none =>
    have hfit := hfits.mp hf
    cases hp : packageName? (Syntax.rootOf source) with
    | none => exact Or.inr (Or.inl ⟨hfit, hclause.mp hp, rfl⟩)
    | some package =>
      obtain ⟨c, hc, hk⟩ : ∃ c ∈ (Syntax.rootOf source).children, c.kind = "package_clause" := by
        rw [hp] at hclause
        simpa using hclause
      -- the clause is a phrase, so the scan does not run over nothing
      have hscan := firstLayoutFault_eq_none_iff (List.ne_nil_of_mem (mem_phrases_rootOf hc hk))
      cases hl : firstLayoutFault (Syntax.rootOf source) with
      | some f =>
        rw [hl] at hscan
        exact Or.inr (Or.inr (Or.inl
          ⟨hfit, ⟨c, hc, hk⟩, fun h => Option.some_ne_none f (hscan.mpr h), f, rfl⟩))
      | none => exact Or.inr (Or.inr (Or.inr ⟨hfit, hscan.mp hl, package, rfl, rfl⟩))

/-- What is known of a file with an index. -/
theorem of_ofSource (h : ofSource o source = .ok i) :
    (Syntax.rootOf source).Fits ∧ (Syntax.rootOf source).InLayout
      ∧ packageName? (Syntax.rootOf source) = some i.package
      ∧ i.declarations = classify o (Syntax.rootOf source) := by
  rcases ofSource_cases o source with ⟨-, f, hs⟩ | ⟨-, -, hs⟩ | ⟨-, -, -, f, hs⟩
    | ⟨hfit, hlayout, package, hp, hs⟩
  · cases hs.symm.trans h
  · cases hs.symm.trans h
  · cases hs.symm.trans h
  · have hi : i = ⟨package, classify o (Syntax.rootOf source)⟩ := Except.ok.inj (h.symm.trans hs)
    exact ⟨hfit, hlayout, by rw [hi, hp], by rw [hi]⟩

/-- A file has an index if everything in its tree fits and its phrases are in order. Otherwise the error is
that of the first check that fails. -/
theorem ofSource_outcome (o : Options) (source : List Char) :
    ((∃ i, ofSource o source = .ok i)
        ↔ (Syntax.rootOf source).Fits ∧ (Syntax.rootOf source).InLayout)
      ∧ ((∃ f, ofSource o source = .error (.syntaxFault f)) ↔ ¬ (Syntax.rootOf source).Fits)
      ∧ (ofSource o source = .error .missingPackage ↔ (Syntax.rootOf source).Fits
        ∧ ∀ c ∈ (Syntax.rootOf source).children, c.kind ≠ "package_clause")
      ∧ ((∃ f, ofSource o source = .error (.layoutFault f)) ↔ (Syntax.rootOf source).Fits
        ∧ (∃ c ∈ (Syntax.rootOf source).children, c.kind = "package_clause")
        ∧ ¬ (Syntax.rootOf source).InLayout) := by
  rcases ofSource_cases o source with ⟨hfit, f, hs⟩ | ⟨hfit, hno, hs⟩ | ⟨hfit, hclause, hnot, f, hs⟩
    | ⟨hfit, hin, package, -, hs⟩
  · simp [hs, hfit]
  · have hnot : ¬ (Syntax.rootOf source).InLayout := by
      intro h
      obtain ⟨c, hc, hk⟩ := exists_packageClause h
      exact hno c hc hk
    simpa [hs, hfit, hnot] using hno
  · simpa [hs, hfit, hnot] using hclause
  · simpa [hs, hfit, hin] using exists_packageClause hin

end Index

end SpanIndex
