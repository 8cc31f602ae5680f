import SpanIndex.Proofs.Syntax.Parse

/-!
# What the nodes of a sound tree show

Every node of the syntax tree of a text shows a sound tree of that text (`Node.Shows`), and a child of such
a node shows another one. So what is known of trees can be asked of nodes: a node of a given kind is
a phrase of the grammar, identifiers are made of identifier characters, and nodes follow each other
in the order of the text (`InOrder`).
-/

namespace SpanIndex.Syntax

open Text

/-! ## Children and the steps of a production -/

namespace Tree

variable {text : List Char} {t u : Tree} {ts : List Tree} {role inherited : Option Field}
  {a : Option Alias} {steps : List Step} {n : Node}

theorem nodes_eq (role : Option Field) (a : Option Alias) (t : Tree) :
    nodes role a t = if t.facts.label.isVisible then
        [nodeOf role a t.facts (childNodes none (stepsOf t.facts) t.children)]
      else childNodes role (stepsOf t.facts) t.children := by
  cases t
  rfl

theorem nodes_visible (h : t.facts.label.isVisible = true) :
    nodes role a t = [nodeOf role a t.facts (childNodes none (stepsOf t.facts) t.children)] := by
  rw [nodes_eq, if_pos h]

theorem nodes_hidden (h : t.facts.label.isVisible = false) :
    nodes role a t = childNodes role (stepsOf t.facts) t.children := by
  rw [nodes_eq, if_neg (by rw [h]; exact Bool.false_ne_true)]

@[simp] theorem childNodes_nil (inherited : Option Field) (steps : List Step) :
    childNodes inherited steps [] = [] := rfl

theorem childNodes_cons (inherited : Option Field) (steps : List Step) (t : Tree) (ts : List Tree) :
    childNodes inherited steps (t :: ts) = if t.facts.extra then
        nodes none none t ++ childNodes inherited steps ts
      else nodes (steps.head?.bind (·.field) <|> inherited) (steps.head?.bind (·.shownAs)) t
        ++ childNodes inherited (steps.drop 1) ts := rfl

theorem stepsOf_some {p : Nat} (h : t.facts.production = some p) :
    stepsOf t.facts = (Grammar.production p).steps.toList := by
  rw [stepsOf, h]

theorem stepsOf_none (h : t.facts.production = none) : stepsOf t.facts = [] := by
  rw [stepsOf, h]

/-- The trees that are parts of a phrase have the labels of its steps. -/
def Fill (steps : List Step) (ts : List Tree) : Prop :=
  parts ts = steps.map fun s => .symbol s.symbol

theorem IsPhrase.fill {c : Category} {p : Nat} (h : t.IsPhrase text c p) :
    Fill (stepsOf t.facts) t.children := by
  rw [stepsOf_some h.production_eq]
  exact h.parts_eq

theorem fill_cons_extra (hx : t.facts.extra = true) : Fill steps (t :: ts) ↔ Fill steps ts := by
  simp [Fill, parts, hx]

theorem fill_cons (hx : t.facts.extra = false) (h : Fill steps (t :: ts)) :
    ∃ s rest, steps = s :: rest ∧ t.facts.label = .symbol s.symbol ∧ Fill rest ts := by
  cases steps with
  | nil => simp [Fill, parts, hx] at h
  | cons s rest =>
    simp only [Fill, parts, hx, Bool.not_false, List.filter_cons_of_pos, List.map_cons,
      List.cons.injEq] at h
    exact ⟨s, rest, rfl, h.1, h.2⟩

/-- A node among the children of a phrase belongs to a tree that stands apart, or to a step of the
production. -/
theorem mem_childNodes (h : Fill steps ts) (hn : n ∈ childNodes inherited steps ts) :
    (∃ t ∈ ts, t.facts.extra = true ∧ n ∈ nodes none none t)
      ∨ ∃ s ∈ steps, ∃ t ∈ ts, t.facts.label = .symbol s.symbol
        ∧ n ∈ nodes (s.field <|> inherited) s.shownAs t := by
  induction ts generalizing steps with
  | nil => cases hn
  | cons t ts ih =>
    rw [childNodes_cons] at hn
    split at hn
    · next hx =>
      rcases List.mem_append.mp hn with hn | hn
      · exact Or.inl ⟨t, List.mem_cons_self, hx, hn⟩
      · rcases ih ((fill_cons_extra hx).mp h) hn with ⟨u, hu, hux, hnu⟩ | ⟨s, hs, u, hu, hl, hnu⟩
        · exact Or.inl ⟨u, List.mem_cons_of_mem _ hu, hux, hnu⟩
        · exact Or.inr ⟨s, hs, u, List.mem_cons_of_mem _ hu, hl, hnu⟩
    · next hx =>
      obtain ⟨s, rest, rfl, hlabel, hrest⟩ := fill_cons (Bool.eq_false_iff.mpr hx) h
      rcases List.mem_append.mp hn with hn | hn
      · exact Or.inr ⟨s, List.mem_cons_self, t, List.mem_cons_self, hlabel, hn⟩
      · rcases ih hrest hn with ⟨u, hu, hux, hnu⟩ | ⟨s', hs, u, hu, hl, hnu⟩
        · exact Or.inl ⟨u, List.mem_cons_of_mem _ hu, hux, hnu⟩
        · exact Or.inr ⟨s', List.mem_cons_of_mem _ hs, u, List.mem_cons_of_mem _ hu, hl, hnu⟩

/-- Every step of a production has its nodes among those of the phrase. -/
theorem exists_of_step (inherited : Option Field) (h : Fill steps ts) {s : Step}
    (hs : s ∈ steps) :
    ∃ t ∈ ts, t.facts.label = .symbol s.symbol
      ∧ ∀ n ∈ nodes (s.field <|> inherited) s.shownAs t, n ∈ childNodes inherited steps ts := by
  induction ts generalizing steps with
  | nil =>
    have hnil : [] = steps.map fun s => Label.symbol s.symbol := h
    rw [List.map_eq_nil_iff.mp hnil.symm] at hs
    cases hs
  | cons t ts ih =>
    rw [childNodes_cons]
    split
    · next hx =>
      obtain ⟨u, hu, hl, hmem⟩ := ih ((fill_cons_extra hx).mp h) hs
      exact ⟨u, List.mem_cons_of_mem _ hu, hl, fun n hn => List.mem_append_right _ (hmem n hn)⟩
    · next hx =>
      obtain ⟨s', rest, rfl, hlabel, hrest⟩ := fill_cons (Bool.eq_false_iff.mpr hx) h
      rcases List.mem_cons.mp hs with rfl | hs
      · exact ⟨t, List.mem_cons_self, hlabel, fun n hn => List.mem_append_left _ hn⟩
      · obtain ⟨u, hu, hl, hmem⟩ := ih hrest hs
        exact ⟨u, List.mem_cons_of_mem _ hu, hl, fun n hn => List.mem_append_right _ (hmem n hn)⟩

/-- A phrase begins with its first part. -/
theorem IsPhrase.first_part {c : Category} {p : Nat} (h : t.IsPhrase text c p) {s : Step}
    (hs : (stepsOf t.facts).head? = some s) :
    ∃ u ∈ t.children, u.facts.label = .symbol s.symbol ∧ u.facts.start = t.facts.start
      ∧ ∀ n ∈ nodes s.field s.shownAs u, n ∈ childNodes none (stepsOf t.facts) t.children := by
  have hfill := h.fill
  cases hcs : t.children with
  | nil =>
    rw [hcs] at hfill
    have hnil : [] = (stepsOf t.facts).map fun s => Label.symbol s.symbol := hfill
    rw [List.map_eq_nil_iff.mp hnil.symm] at hs
    cases hs
  | cons u ts =>
    rw [hcs] at hfill
    have hhead : t.children.head? = some u := by rw [hcs]; rfl
    have hx := h.first u hhead
    obtain ⟨s', rest, hsteps, hl, -⟩ := fill_cons hx hfill
    rw [hsteps] at hs ⊢
    obtain rfl : s' = s := Option.some.inj hs
    refine ⟨u, List.mem_cons_self, hl, (h.filled.start_eq u hhead).symm, fun n hn => ?_⟩
    rw [childNodes_cons, if_neg (by rw [hx]; exact Bool.false_ne_true)]
    refine List.mem_append_left _ ?_
    have hrole : (s'.field <|> none) = s'.field := by cases s'.field <;> rfl
    show n ∈ nodes (s'.field <|> none) s'.shownAs u
    rw [hrole]
    exact hn

/-- Where no step is shown under another kind the children have their own. -/
theorem mem_childNodes_plain (h : ∀ s ∈ steps, s.shownAs = none)
    (hn : n ∈ childNodes inherited steps ts) : ∃ t ∈ ts, ∃ role, n ∈ nodes role none t := by
  induction ts generalizing steps with
  | nil => cases hn
  | cons t ts ih =>
    have hrest : ∀ {rest}, (∀ s ∈ rest, s.shownAs = none) → n ∈ childNodes inherited rest ts →
        ∃ u ∈ t :: ts, ∃ role, n ∈ nodes role none u := by
      intro rest hrest hn
      obtain ⟨u, hu, hnu⟩ := ih hrest hn
      exact ⟨u, List.mem_cons_of_mem _ hu, hnu⟩
    rw [childNodes_cons] at hn
    split at hn
    · rcases List.mem_append.mp hn with hn | hn
      · exact ⟨t, List.mem_cons_self, none, hn⟩
      · exact hrest h hn
    · rcases List.mem_append.mp hn with hn | hn
      · have hshown : steps.head?.bind (·.shownAs) = none := by
          cases hstep : steps.head? with
          | none => rfl
          | some s => exact h s (List.mem_of_head? hstep)
        rw [hshown] at hn
        exact ⟨t, List.mem_cons_self, _, hn⟩
      · exact hrest (fun s hs => h s (List.mem_of_mem_drop hs)) hn

/-- The children of a sound tree fill the steps of its production; otherwise it has none. -/
theorem Sound.fill (h : t.Sound text) :
    (∃ c p, t.IsPhrase text c p) ∨ stepsOf t.facts = [] := by
  cases h with
  | token _ _ production _ => exact Or.inr (stepsOf_none production)
  | absent _ _ production _ => exact Or.inr (stepsOf_none production)
  | @phrase f cs p _ present production label filled parts_eq first _ =>
    exact Or.inl ⟨_, p, production, rfl, present, filled, parts_eq, first⟩
  | fault _ _ production _ _ _ => exact Or.inr (stepsOf_none production)

end Tree

/-! ## Nodes and trees -/

/-- Words may be shown under a kind that is not their own. -/
def Label.IsWord (l : Label) : Prop :=
  l ∈ [.ofTerminal .identifier, .ofTerminal .kwNew, .ofTerminal .kwMake]

/-- The node shows the tree `t`, which is one of the text. -/
structure Node.Shows (text : List Char) (n : Node) (t : Tree) : Prop where
  sound : t.Sound text
  visible : t.facts.label.isVisible = true
  shown : ∃ a : Option Alias, (a.isSome = true → t.facts.label.IsWord) ∧
    n = Tree.nodeOf n.field a t.facts (Tree.childNodes none (Tree.stepsOf t.facts) t.children)

namespace Tree

variable {text : List Char} {t : Tree} {role inherited : Option Field} {a : Option Alias} {n : Node}

/-- Each tree contributes nodes that show trees. -/
def Contributes (text : List Char) (t : Tree) : Prop :=
  ∀ role a, (a.isSome = true → t.facts.label.IsWord) → ∀ n ∈ nodes role a t,
    ∃ u, n.Shows text u

theorem shows_of_mem_childNodes (h : t.Sound text) (hc : ∀ c ∈ t.children, c.Contributes text)
    (hn : n ∈ childNodes inherited (stepsOf t.facts) t.children) : ∃ u, n.Shows text u := by
  rcases h.fill with ⟨c, p, hphrase⟩ | hnil
  · rcases mem_childNodes hphrase.fill hn with ⟨u, hu, -, hn⟩ | ⟨s, hs, u, hu, hl, hn⟩
    · exact hc u hu none none (fun ha => nomatch ha) n hn
    · refine hc u hu _ _ (fun ha => ?_) n hn
      rw [stepsOf_some hphrase.production_eq] at hs
      have hword := Grammar.word_of_shownAs (Grammar.steps_mem_contents p) hs ha
      rw [hl]
      exact List.mem_map_of_mem (f := Label.symbol) hword
  · rw [hnil] at hn
    obtain ⟨u, hu, role, hn⟩ := mem_childNodes_plain (by simp) hn
    exact hc u hu role none (fun ha => nomatch ha) n hn

theorem Sound.contributes (h : t.Sound text) : t.Contributes text := by
  refine h.induction (P := fun t => t.Contributes text) ?_
  intro t ht ih role a ha n hn
  cases hv : t.facts.label.isVisible with
  | true =>
    rw [nodes_visible hv, List.mem_singleton] at hn
    subst hn
    exact ⟨t, ht, hv, a, ha, rfl⟩
  | false =>
    rw [nodes_hidden hv] at hn
    exact shows_of_mem_childNodes ht ih hn

end Tree

theorem Node.Shows.child {text : List Char} {n c : Node} {t : Tree} (h : n.Shows text t)
    (hc : c ∈ n.children) : ∃ u, c.Shows text u := by
  obtain ⟨a, -, hn⟩ := h.shown
  rw [hn] at hc
  exact Tree.shows_of_mem_childNodes h.sound (fun u hu => (h.sound.child hu).contributes) hc

/-! ## The root -/

@[simp] theorem Tree.children_nodeOf (role : Option Field) (a : Option Alias) (f : Facts)
    (ns : List Node) : (Tree.nodeOf role a f ns).children = ns := rfl

/-- What stands at file scope are the nodes of the whole tree. -/
theorem children_rootOf (text : List Char) :
    (rootOf text).children
      = Tree.childNodes none (Tree.stepsOf (parse text).facts) (parse text).children := by
  have hvisible : (parse text).facts.label.isVisible = true := by
    rcases (parse_root text).isFile with ⟨hl, -⟩ | ⟨p, hl, -, -⟩
    · rw [hl]; rfl
    · rw [hl]; rfl
  rw [rootOf, Tree.nodes_visible hvisible, List.headD_cons, Tree.children_nodeOf]

theorem Tree.Root.stepsOf_plain {text : List Char} {t : Tree} (h : t.Root text) :
    ∀ s ∈ Tree.stepsOf t.facts, s.shownAs = none := by
  rcases h.isFile with ⟨-, hp⟩ | ⟨p, -, hp, hhead⟩
  · rw [Tree.stepsOf_none hp]
    exact fun s hs => nomatch hs
  · rw [Tree.stepsOf_some hp]
    have hplain : ∀ steps ∈ Grammar.contents .sourceFile, ∀ s ∈ steps, s.shownAs = none := by
      decide
    exact hplain _ (Grammar.steps_mem_contents_of_head hhead)

/-- Every node below the root of a text shows a tree of the text. -/
theorem shows_of_mem_rootOf {text : List Char} {n : Node} (h : n ∈ (rootOf text).children) :
    ∃ t, n.Shows text t := by
  have hroot := parse_root text
  rw [children_rootOf] at h
  obtain ⟨t, ht, role, hn⟩ := Tree.mem_childNodes_plain hroot.stepsOf_plain h
  exact (hroot.children t ht).contributes role none (fun ha => nomatch ha) n hn

/-! ## The order of nodes -/

/-- The nodes follow each other from one row to another. -/
inductive InOrder : Nat → List Node → Nat → Prop
  | nil {i j : Nat} (h : i ≤ j) : InOrder i [] j
  | cons {i j : Nat} {n : Node} {ns : List Node} (first : i ≤ n.startRow)
    (within : n.startRow ≤ n.endRow) (rest : InOrder n.endRow ns j) : InOrder i (n :: ns) j

namespace InOrder

variable {ns ms : List Node} {i j k : Nat}

theorem le (h : InOrder i ns j) : i ≤ j := by
  induction h with
  | nil h => exact h
  | cons first within _ ih => exact Nat.le_trans first (Nat.le_trans within ih)

theorem of_mem (h : InOrder i ns j) {n : Node} (hn : n ∈ ns) :
    n.startRow ≤ n.endRow ∧ n.endRow ≤ j := by
  induction h with
  | nil => cases hn
  | cons _ within rest ih =>
    rcases List.mem_cons.mp hn with rfl | hn
    · exact ⟨within, rest.le⟩
    · exact ih hn

theorem of_le (h : InOrder i ns j) (hk : k ≤ i) : InOrder k ns j := by
  cases h with
  | nil h => exact .nil (Nat.le_trans hk h)
  | cons first within rest => exact .cons (Nat.le_trans hk first) within rest

theorem to_le (h : InOrder i ns j) (hk : j ≤ k) : InOrder i ns k := by
  induction h with
  | nil h => exact .nil (Nat.le_trans h hk)
  | cons first within _ ih => exact .cons first within (ih hk)

theorem append (h : InOrder i ns j) (h' : InOrder j ms k) : InOrder i (ns ++ ms) k := by
  induction h with
  | nil h => exact h'.of_le h
  | cons first within _ ih => exact .cons first within (ih h')

/-- Nodes may be left out. -/
theorem sublist (h : InOrder i ns j) (hs : ms.Sublist ns) : InOrder i ms j := by
  induction hs generalizing i with
  | slnil => exact h
  | cons n hs ih =>
    cases h with
    | cons first within rest => exact (ih rest).of_le (Nat.le_trans first within)
  | cons_cons n hs ih =>
    cases h with
    | cons first within rest => exact .cons first within (ih rest)

end InOrder

namespace Tree

variable {text : List Char} {t : Tree} {ts : List Tree} {p q : Place}

theorem inOrder_childNodes {inherited : Option Field} {steps : List Step} (h : Covers p ts q)
    (hnodes : ∀ t ∈ ts, ∀ role a, InOrder t.facts.before.row (nodes role a t) t.facts.stop.row) :
    InOrder p.row (childNodes inherited steps ts) q.row := by
  induction ts generalizing p steps with
  | nil =>
    have hpq : p = q := h
    rw [childNodes_nil, hpq]
    exact .nil (Nat.le_refl _)
  | cons t ts ih =>
    have hrest : ∀ u ∈ ts, ∀ role a, InOrder u.facts.before.row (nodes role a u)
        u.facts.stop.row := fun u hu => hnodes u (List.mem_cons_of_mem _ hu)
    have hthis := hnodes t List.mem_cons_self
    rw [h.1] at hthis
    rw [childNodes_cons]
    split
    · exact (hthis _ _).append (ih h.2 hrest)
    · exact (hthis _ _).append (ih h.2 hrest)

/-- The nodes of a tree lie between its ends. -/
theorem Sound.inOrder (h : t.Sound text) :
    ∀ role a, InOrder t.facts.before.row (nodes role a t) t.facts.stop.row := by
  refine h.induction (P := fun t => ∀ role a,
    InOrder t.facts.before.row (nodes role a t) t.facts.stop.row) ?_
  intro t ht ih role a
  have hplaced := ht.placed
  have hstart := Place.row_mono hplaced.before_in hplaced.start_in hplaced.before_le
  have hstop := Place.row_mono hplaced.start_in hplaced.stop_in hplaced.start_le
  cases hv : t.facts.label.isVisible with
  | true =>
    rw [nodes_visible hv]
    exact .cons hstart hstop (.nil (Nat.le_refl _))
  | false =>
    rw [nodes_hidden hv]
    rcases ht.children_covers with hnil | hcovers
    · rw [hnil, childNodes_nil]
      exact .nil (Nat.le_trans hstart hstop)
    · exact inOrder_childNodes hcovers ih

end Tree

theorem Tree.Root.inOrder {text : List Char} {t : Tree} (h : t.Root text) :
    InOrder 0 (Tree.childNodes none (Tree.stepsOf t.facts) t.children) (text.count '\n') := by
  have horder : InOrder t.facts.before.row
      (Tree.childNodes none (Tree.stepsOf t.facts) t.children) t.facts.stop.row :=
    Tree.inOrder_childNodes h.covers fun c hc => (h.children c hc).inOrder
  exact (horder.of_le (Nat.zero_le _)).to_le h.placed.stop_in.row_le

/-- What stands at file scope is in the order of the text, and lies within it. -/
theorem rootOf_inOrder (text : List Char) :
    InOrder 0 (rootOf text).children (text.count '\n') := by
  rw [children_rootOf]
  exact (parse_root text).inOrder

end SpanIndex.Syntax
