import SpanIndex.Proofs.Syntax.Node

/-!
# Phrases by the kind of their nodes

A node of one of the kinds that stand at file scope is a phrase of the grammar, so its children are
known: a package clause has a name, a declaration begins with its keyword, and what is called by the role
of a name is an identifier. If the node fits the grammar, so do these tokens.
-/

namespace SpanIndex.Syntax

open Text

/-! ## Kinds -/

/-- The phrases that are told by the kind of their nodes. -/
def Category.landmarks : List Category :=
  [.packageClause, .importDeclaration, .constDeclaration, .typeDeclaration, .varDeclaration,
    .functionDeclaration, .methodDeclaration, .typeSpec, .typeAlias]

/-- No other symbol has the name of a landmark. -/
theorem Label.eq_of_kind {l : Label} {c : Category} (hc : c ∈ Category.landmarks)
    (hl : Tree.Label.kind l = c.name) : l = .symbol (.category c) := by
  have hterminal : ∀ t ∈ Terminal.all, ∀ c ∈ Category.landmarks, t.name ≠ c.name := by
    decide
  have hcategory : ∀ d ∈ Category.all, ∀ c ∈ Category.landmarks, d.name = c.name → d = c := by
    decide +kernel
  have hother : ∀ c ∈ Category.landmarks, "ERROR" ≠ c.name ∧ "" ≠ c.name := by decide
  cases l with
  | symbol s =>
    cases s with
    | terminal t => exact absurd hl (hterminal t (List.mem_of_getElem? t.getElem?_all) c hc)
    | category d => rw [hcategory d (List.mem_of_getElem? d.getElem?_all) c hc hl]
  | error => exact absurd hl (hother c hc).1
  | skipped => exact absurd hl (hother c hc).2
  | endOfInput => exact absurd hl (hother c hc).2

theorem Tree.present_of_flag {role : Option Field} {a : Option Alias} {f : Facts} {ns : List Node}
    (h : (nodeOf role a f ns).flag = .sound) : f.missing = false := by
  cases hm : f.missing with
  | false => rfl
  | true => simp [nodeOf, hm] at h

namespace Node.Shows

variable {text : List Char} {n c : Node} {t : Tree}

/-- A node of the kind of a landmark shows such a phrase. -/
theorem label_of_kind (h : n.Shows text t) {d : Category} (hd : d ∈ Category.landmarks)
    (hk : n.kind = d.name) : t.facts.label = .symbol (.category d) := by
  obtain ⟨a, -, hn⟩ := h.shown
  have halias : ∀ a : Alias, ∀ d ∈ Category.landmarks, a.kind ≠ d.name := by
    intro a
    cases a <;> decide
  rw [hn] at hk
  cases a with
  | some a => exact absurd hk (halias a d hd)
  | none => exact Label.eq_of_kind hd hk

theorem named_of_kind (h : n.Shows text t) {d : Category} (hd : d ∈ Category.landmarks)
    (hk : n.kind = d.name) : n.named = true := by
  have hl := h.label_of_kind hd hk
  obtain ⟨a, -, hn⟩ := h.shown
  rw [hn, Tree.nodeOf, hl]
  exact Bool.or_true _

theorem present (h : n.Shows text t) (hf : n.flag = .sound) : t.facts.missing = false := by
  obtain ⟨a, -, hn⟩ := h.shown
  rw [hn] at hf
  exact Tree.present_of_flag hf

theorem startRow_eq (h : n.Shows text t) : n.startRow = t.facts.start.row := by
  obtain ⟨a, -, hn⟩ := h.shown
  rw [hn]
  rfl

theorem text_eq (h : n.Shows text t) : n.text = t.facts.start.textTo t.facts.stop := by
  obtain ⟨a, -, hn⟩ := h.shown
  rw [hn]
  rfl

end Node.Shows

/-! ## Words -/

/-- A word that stands in the text is made of identifier characters. -/
theorem Tree.Sound.isIdentifier {text : List Char} {t : Tree} (h : t.Sound text)
    (hw : t.facts.label.IsWord) (hm : t.facts.missing = false) :
    isIdentifier (t.facts.start.textTo t.facts.stop) = true := by
  have hkeyword : ∀ spelling s, (spelling, s) ∈ Terminal.keywords →
      t.facts.label = .ofTerminal s →
      Text.isIdentifier (t.facts.start.textTo t.facts.stop) = true := by
    intro spelling s hmem hl
    rw [(h.spells hl hm).keyword spelling hmem]
    exact Terminal.isIdentifier_of_mem_keywords hmem
  simp only [Label.IsWord, List.mem_cons, List.not_mem_nil, or_false] at hw
  rcases hw with hl | hl | hl
  · exact (h.spells hl hm).identifier rfl
  · exact hkeyword "new".toList .kwNew (by decide) hl
  · exact hkeyword "make".toList .kwMake (by decide) hl

namespace Node.Shows

variable {text : List Char} {n c : Node} {t : Tree}

/-- The kinds that words are shown under and nothing else. -/
theorem isWord_of_kind (h : n.Shows text t)
    (hk : n.kind = "type_identifier" ∨ n.kind = "package_identifier") :
    t.facts.label.IsWord := by
  have hterminal : ∀ s ∈ Terminal.all, s.name ≠ "type_identifier" ∧ s.name ≠ "package_identifier" := by
    decide
  have hcategory : ∀ d ∈ Category.all, d.name ≠ "type_identifier" ∧ d.name ≠ "package_identifier" := by
    decide
  obtain ⟨a, ha, hn⟩ := h.shown
  cases a with
  | some a => exact ha rfl
  | none =>
    have hkind : n.kind = Tree.Label.kind t.facts.label := by rw [hn]; rfl
    rw [hkind] at hk
    cases hl : t.facts.label with
    | symbol s =>
      rw [hl] at hk
      cases s with
      | terminal s =>
        obtain ⟨h1, h2⟩ := hterminal s (List.mem_of_getElem? s.getElem?_all)
        exact absurd hk (not_or.mpr ⟨h1, h2⟩)
      | category d =>
        obtain ⟨h1, h2⟩ := hcategory d (List.mem_of_getElem? d.getElem?_all)
        exact absurd hk (not_or.mpr ⟨h1, h2⟩)
    | error =>
      rw [hl] at hk
      exact absurd hk (by decide)
    | skipped =>
      rw [hl] at hk
      exact absurd hk (by decide)
    | endOfInput =>
      rw [hl] at hk
      exact absurd hk (by decide)

/-- A type name or package name is an identifier. -/
theorem isIdentifier_of_kind (h : n.Shows text t) (hf : n.flag = .sound)
    (hk : n.kind = "type_identifier" ∨ n.kind = "package_identifier") :
    isIdentifier n.text = true := by
  rw [h.text_eq]
  exact h.sound.isIdentifier (h.isWord_of_kind hk) (h.present hf)

end Node.Shows

/-! ## The parts of a phrase -/

namespace Node.Shows

variable {text : List Char} {n c : Node} {t : Tree}

theorem children_eq (h : n.Shows text t) :
    n.children = Tree.childNodes none (Tree.stepsOf t.facts) t.children := by
  obtain ⟨a, -, hn⟩ := h.shown
  rw [hn, Tree.children_nodeOf]

/-- The steps of a phrase that is told by the kind of its node. -/
theorem steps_of_kind (h : n.Shows text t) {d : Category} (hd : d ∈ Category.landmarks)
    (hk : n.kind = d.name) :
    (∃ p, t.IsPhrase text d p) ∧ Tree.stepsOf t.facts ∈ Grammar.contents d := by
  obtain ⟨p, hp⟩ := h.sound.isPhrase (h.label_of_kind hd hk)
  refine ⟨⟨p, hp⟩, ?_⟩
  rw [Tree.stepsOf_some hp.production_eq]
  exact Grammar.steps_mem_contents_of_head hp.head_eq

/-- A package clause has a name. -/
theorem exists_packageName (h : n.Shows text t) (hk : n.kind = "package_clause") :
    ∃ c ∈ n.children, c.kind = "package_identifier" := by
  obtain ⟨⟨p, hp⟩, hmem⟩ := h.steps_of_kind (d := .packageClause) (by decide) hk
  have hname : ∀ steps ∈ Grammar.contents .packageClause,
      ⟨.terminal .identifier, none, some .packageIdentifier⟩ ∈ steps := by decide
  obtain ⟨u, -, hl, hnodes⟩ := Tree.exists_of_step none hp.fill (hname _ hmem)
  have hvisible : u.facts.label.isVisible = true := by rw [hl]; rfl
  rw [Tree.nodes_visible hvisible] at hnodes
  rw [h.children_eq]
  exact ⟨_, hnodes _ (List.mem_singleton_self _), rfl⟩

end Node.Shows

/-- The declarations and the keywords that they begin with. -/
def introducers : List (Category × Terminal) :=
  [ (.importDeclaration, .kwImport), (.constDeclaration, .kwConst), (.typeDeclaration, .kwType),
    (.varDeclaration, .kwVar), (.functionDeclaration, .kwFunc), (.methodDeclaration, .kwFunc) ]

/-- A declaration whose parts fit begins with its keyword. -/
theorem Node.Shows.introduced {text : List Char} {n : Node} {t : Tree} (h : n.Shows text t)
    {d : Category} {kw : Terminal} (hd : (d, kw) ∈ introducers) (hk : n.kind = d.name)
    (hf : ∀ c ∈ n.children, c.flag = .sound) : kw.name.toList <+: t.facts.start.rest := by
  have htable : ∀ x ∈ introducers, x.1 ∈ Category.landmarks
      ∧ (x.2.name.toList, x.2) ∈ Terminal.keywords ∧ x.2.isVisible = true
      ∧ ∀ steps ∈ Grammar.contents x.1, steps.head? = some ⟨.terminal x.2, none, none⟩ := by
    decide
  obtain ⟨hlandmark, hspelling, hvisible, hfirst⟩ := htable _ hd
  obtain ⟨⟨p, hp⟩, hmem⟩ := h.steps_of_kind hlandmark hk
  obtain ⟨u, hu, hl, hstart, hnodes⟩ := hp.first_part (hfirst _ hmem)
  have hu' : u.Sound text := h.sound.child hu
  have hvisible' : u.facts.label.isVisible = true := by rw [hl]; exact hvisible
  rw [Tree.nodes_visible hvisible', ← h.children_eq] at hnodes
  have hpresent : u.facts.missing = false :=
    Tree.present_of_flag (hf _ (hnodes _ (List.mem_singleton_self _)))
  have hword := (hu'.spells hl hpresent).keyword _ hspelling
  rw [← hword, ← hstart]
  exact List.take_prefix _ _

/-! ## Names -/

namespace Tree

variable {text : List Char} {t : Tree} {n : Node} {role : Option Field} {a : Option Alias}

theorem field_of_visible (hv : t.facts.label.isVisible = true) (hn : n ∈ nodes role a t) :
    n.field = role := by
  rw [nodes_visible hv, List.mem_singleton] at hn
  rw [hn]
  rfl

/-- What stands apart has no role. -/
theorem Sound.field_of_extra (h : t.Sound text) (hx : t.facts.extra = true)
    (hn : n ∈ nodes none none t) : n.field = none := by
  rcases h.placed.apart hx with hl | hl | hl
  · exact field_of_visible (by rw [hl]; rfl) hn
  · exact field_of_visible (by rw [hl]; rfl) hn
  · rw [nodes_hidden (by rw [hl]; rfl), h.children_endOfInput hl, childNodes_nil] at hn
    cases hn

/-- The node of a type has the role of the type. -/
theorem Sound.field_of_simpleType (h : t.Sound text)
    (hl : t.facts.label = .symbol (.category .simpleType)) (hn : n ∈ nodes role a t) :
    n.field = none ∨ n.field = role := by
  have hplain : ∀ steps ∈ Grammar.contents .simpleType, ∀ s ∈ steps,
      s.field = none ∧ (Label.symbol s.symbol).isVisible = true := by decide
  obtain ⟨p, hp⟩ := h.isPhrase hl
  rw [nodes_hidden (by rw [hl]; rfl)] at hn
  rcases mem_childNodes hp.fill hn with ⟨u, hu, hx, hn⟩ | ⟨s, hs, u, hu, hlabel, hn⟩
  · exact Or.inl ((h.child hu).field_of_extra hx hn)
  · rw [stepsOf_some hp.production_eq] at hs
    obtain ⟨hfield, hvisible⟩ := hplain _ (Grammar.steps_mem_contents_of_head hp.head_eq) s hs
    refine Or.inr ((field_of_visible (by rw [hlabel]; exact hvisible) hn).trans ?_)
    rw [hfield]
    rfl

end Tree

/-- The phrases that give a name. -/
def Category.naming : List Category :=
  [.functionDeclaration, .methodDeclaration, .typeSpec, .typeAlias]

/-- Where a phrase gives a name, that is an identifier: all other parts have another role or none, and
those that are hidden are types. -/
theorem Node.Shows.isIdentifier_name {text : List Char} {n c : Node} {t : Tree}
    (h : n.Shows text t) {d : Category} (hd : d ∈ Category.naming) (hk : n.kind = d.name)
    (hc : c ∈ n.children) (hname : c.field = some .name) (hf : c.flag = .sound) :
    isIdentifier c.text = true := by
  have htable : ∀ d ∈ Category.naming, d ∈ Category.landmarks
      ∧ ∀ steps ∈ Grammar.contents d, ∀ s ∈ steps,
        (s.field = some .name ∧ s.symbol = .terminal .identifier)
          ∨ (s.field ≠ some .name ∧ (Label.symbol s.symbol).isVisible = true)
          ∨ (s.field ≠ some .name ∧ s.symbol = .category .simpleType) := by
    decide
  obtain ⟨hlandmark, hsteps⟩ := htable d hd
  obtain ⟨⟨p, hp⟩, hmem⟩ := h.steps_of_kind hlandmark hk
  rw [h.children_eq] at hc
  rcases Tree.mem_childNodes hp.fill hc with ⟨u, hu, hx, hn⟩ | ⟨s, hs, u, hu, hl, hn⟩
  · rw [(h.sound.child hu).field_of_extra hx hn] at hname
    cases hname
  · have hrole : (s.field <|> none) = s.field := by cases s.field <;> rfl
    rw [hrole] at hn
    rcases hsteps _ hmem s hs with ⟨-, hsym⟩ | ⟨hne, hvisible⟩ | ⟨hne, hsym⟩
    · rw [hsym] at hl
      have hword : u.facts.label.IsWord := by rw [hl]; exact List.mem_cons_self
      have hvisible : u.facts.label.isVisible = true := by rw [hl]; rfl
      rw [Tree.nodes_visible hvisible, List.mem_singleton] at hn
      have hshows : c.Shows text u :=
        ⟨h.sound.child hu, hvisible, s.shownAs, fun _ => hword, by rw [hn]; rfl⟩
      rw [hshows.text_eq]
      exact hshows.sound.isIdentifier hword (hshows.present hf)
    · rw [Tree.field_of_visible (by rw [hl]; exact hvisible) hn] at hname
      exact absurd hname hne
    · rw [hsym] at hl
      rcases (h.sound.child hu).field_of_simpleType hl hn with hnone | hsome
      · rw [hnone] at hname
        cases hname
      · exact absurd (hsome.symm.trans hname) hne

end SpanIndex.Syntax
