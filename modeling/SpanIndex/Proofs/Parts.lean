import Mathlib.Data.List.Find
import Mathlib.Data.List.Forall2
import SpanIndex.Proofs.Declaration

/-!
# The parts of a phrase

Comments may stand between any two parts of a phrase. Without them, the children of a node that fits are the nodes of
the symbols of one production, one after the other (`Parted`). A visible symbol has one node, a hidden phrase has
those of its own symbols, and a repetition has those of its copies.
-/

namespace SpanIndex.Syntax

/-- What is found for each of the nodes makes a list. -/
theorem exists_forall₂ {α : Type} {R : α → Node → Prop} {ns : List Node} (h : ∀ n ∈ ns, ∃ x, R x n) :
    ∃ xs, List.Forall₂ R xs ns := by
  induction ns with
  | nil => exact ⟨[], .nil⟩
  | cons n ns ih =>
    obtain ⟨⟨x, hx⟩, hrest⟩ := List.forall_mem_cons.mp h
    obtain ⟨xs, hxs⟩ := ih hrest
    exact ⟨x :: xs, .cons hx hxs⟩

/-! ## Nodes without comments -/

def withoutComments (ns : List Node) : List Node := ns.filter fun n => !n.isComment

/-- The children of a node that are parts of its phrase. -/
def Node.parts (n : Node) : List Node := withoutComments n.children

/-- The node fits the grammar, and so does everything below it. -/
def Node.Whole (n : Node) : Prop := n.flag = .sound ∧ n.Fits

theorem Node.Whole.child {n c : Node} (h : n.Whole) (hc : c ∈ n.children) : c.Whole :=
  Node.fits_iff.mp h.2 c hc

theorem withoutComments_append (ns ms : List Node) :
    withoutComments (ns ++ ms) = withoutComments ns ++ withoutComments ms :=
  List.filter_append ..

theorem withoutComments_of_ne {n : Node} (h : n.kind ≠ "comment") : withoutComments [n] = [n] := by
  simp [withoutComments, Node.isComment, h]

theorem withoutComments_of_eq {n : Node} (h : n.kind = "comment") : withoutComments [n] = [] := by
  simp [withoutComments, Node.isComment, h]

/-- Comments are the only nodes that are called so. -/
theorem Label.eq_comment_of_kind {l : Label} (h : Tree.Label.kind l = "comment") :
    l = .ofTerminal .comment := by
  have hterminal : ∀ t ∈ Terminal.all, t.name = "comment" → t = .comment := by decide
  have hcategory : ∀ d ∈ Category.all, d.name ≠ "comment" := by decide
  cases l with
  | symbol s =>
    cases s with
    | terminal t => rw [hterminal t (List.mem_of_getElem? t.getElem?_all) h]; rfl
    | category d => exact absurd h (hcategory d (List.mem_of_getElem? d.getElem?_all))
  | error => exact absurd h (by decide)
  | skipped => exact absurd h (by decide)
  | endOfInput => exact absurd h (by decide)

namespace Tree

variable {text : List Char} {t : Tree} {ts : List Tree} {role inherited : Option Field}
  {a : Option Alias} {steps : List Step} {n : Node}

theorem kind_nodeOf_ne {f : Facts} {ns : List Node} (h : f.label ≠ .ofTerminal .comment) :
    (nodeOf role a f ns).kind ≠ "comment" := by
  cases a with
  | none => exact mt Label.eq_comment_of_kind h
  | some a =>
    show a.kind ≠ "comment"
    cases a <;> decide

/-- What stands apart in a tree that fits are comments. -/
theorem Sound.withoutComments_extra (h : t.Sound text) (hx : t.facts.extra = true)
    (hfit : ∀ n ∈ nodes none none t, n.Whole) : withoutComments (nodes none none t) = [] := by
  rcases h.placed.apart hx with hl | hl | hl
  · rw [nodes_visible (by rw [hl]; rfl)]
    refine withoutComments_of_eq ?_
    show Label.kind t.facts.label = "comment"
    rw [hl]
    rfl
  · rw [nodes_visible (by rw [hl]; rfl)] at hfit
    have hflag := (hfit _ (List.mem_singleton_self _)).1
    simp [nodeOf, hl] at hflag
    split_ifs at hflag
  · rw [nodes_hidden (by rw [hl]; rfl), h.children_endOfInput hl, childNodes_nil]
    rfl

theorem Sound.children_terminal (h : t.Sound text) {s : Terminal}
    (hl : t.facts.label = .symbol (.terminal s)) : t.children = [] := by
  cases h with
  | token _ _ _ _ => rfl
  | absent _ _ _ _ => rfl
  | phrase _ _ _ label _ _ _ _ =>
    simp only [facts] at hl
    rw [hl] at label
    cases label
  | fault _ _ _ label _ _ =>
    simp only [facts] at hl
    rw [hl] at label
    cases label

/-- The comments among the nodes of a symbol have no role. -/
def CommentsApart (t : Tree) : Prop :=
  ∀ s, t.facts.label = .symbol s → s ≠ .terminal .comment →
    ∀ role a, ∀ n ∈ nodes role a t, n.kind = "comment" → n.field = none

theorem Sound.field_of_comment (h : t.Sound text) (hc : ∀ c ∈ t.children, c.CommentsApart) {d : Category}
    (hl : t.facts.label = .symbol (.category d))
    (hn : n ∈ childNodes inherited (stepsOf t.facts) t.children) (hk : n.kind = "comment") :
    n.field = none := by
  have htable : ∀ d ∈ Category.all, ∀ steps ∈ Grammar.contents d, ∀ s ∈ steps,
      s.symbol ≠ .terminal .comment := by decide +kernel
  obtain ⟨p, hp⟩ := h.isPhrase hl
  rcases mem_childNodes hp.fill hn with ⟨u, hu, hx, hn⟩ | ⟨s, hs, u, hu, hlabel, hn⟩
  · exact (h.child hu).field_of_extra hx hn
  · rw [stepsOf_some hp.production_eq] at hs
    have hsymbol := htable d (List.mem_of_getElem? d.getElem?_all) _
      (Grammar.steps_mem_contents_of_head hp.head_eq) s hs
    exact hc u hu s.symbol hlabel hsymbol _ _ n hn hk

theorem Sound.commentsApart (h : t.Sound text) : t.CommentsApart := by
  refine h.induction (P := CommentsApart) ?_
  intro t ht ih s hl hs role a n hn hk
  cases hv : t.facts.label.isVisible with
  | true =>
    rw [nodes_visible hv, List.mem_singleton] at hn
    have hcomment : t.facts.label ≠ .ofTerminal .comment := by
      rw [hl]
      exact fun heq => hs (Label.symbol.inj heq)
    exact absurd (hn ▸ hk) (kind_nodeOf_ne hcomment)
  | false =>
    rw [nodes_hidden hv] at hn
    cases s with
    | terminal s =>
      rw [ht.children_terminal hl, childNodes_nil] at hn
      cases hn
    | category d => exact ht.field_of_comment ih hl hn hk

end Tree

/-! ## Symbols and their nodes -/

/-- The nodes are those of a tree with the symbol `s`, which plays the role `role` and is shown as `a`. `P` is what
is known of the tree. -/
def Stands (P : Tree → Prop) (role : Option Field) (a : Option Alias) (s : Symbol) (ns : List Node) : Prop :=
  ∃ t : Tree, P t ∧ t.facts.label = .symbol s ∧ (∀ n ∈ t.nodes role a, n.Whole)
    ∧ ns = withoutComments (t.nodes role a)

/-- The nodes are those of the symbols of a production. -/
inductive Parted (P : Tree → Prop) (inherited : Option Field) : List Step → List Node → Prop
  | nil : Parted P inherited [] []
  | cons {s : Step} {steps : List Step} {ns ms : List Node}
      (first : Stands P (s.field <|> inherited) s.shownAs s.symbol ns)
      (rest : Parted P inherited steps ms) : Parted P inherited (s :: steps) (ns ++ ms)

theorem Step.field_orElse_none (s : Step) : (s.field <|> none) = s.field := by
  cases s.field <;> rfl

namespace Parted

variable {P : Tree → Prop} {inherited : Option Field} {s : Step} {steps more : List Step} {ns : List Node}

theorem append (h : Parted P inherited (steps ++ more) ns) :
    ∃ xs ys, ns = xs ++ ys ∧ Parted P inherited steps xs ∧ Parted P inherited more ys := by
  induction steps generalizing ns with
  | nil => exact ⟨[], ns, rfl, .nil, h⟩
  | cons s steps ih =>
    cases h with
    | cons first rest =>
      obtain ⟨xs, ys, rfl, hxs, hys⟩ := ih rest
      exact ⟨_, ys, (List.append_assoc ..).symm, .cons first hxs, hys⟩

theorem uncons (h : Parted P inherited (s :: steps) ns) :
    ∃ xs ys, ns = xs ++ ys ∧ Stands P (s.field <|> inherited) s.shownAs s.symbol xs
      ∧ Parted P inherited steps ys := by
  cases h with
  | cons first rest => exact ⟨_, _, rfl, first, rest⟩

theorem singleton (h : Parted P inherited [s] ns) :
    Stands P (s.field <|> inherited) s.shownAs s.symbol ns := by
  cases h with
  | cons first rest =>
    cases rest
    rw [List.append_nil]
    exact first

theorem forall_mem {Q : Node → Prop} (h : Parted P inherited steps ns)
    (hstep : ∀ s ∈ steps, ∀ ms, Stands P (s.field <|> inherited) s.shownAs s.symbol ms →
      ∀ m ∈ ms, Q m) : ∀ n ∈ ns, Q n := by
  induction h with
  | nil => exact List.forall_mem_nil _
  | cons first rest ih =>
    obtain ⟨hfirst, hrest⟩ := List.forall_mem_cons.mp hstep
    exact List.forall_mem_append.mpr ⟨hfirst _ first, ih hrest⟩

end Parted

namespace Tree

variable {text : List Char} {P : Tree → Prop} {t : Tree} {ts : List Tree} {role inherited : Option Field}
  {a : Option Alias} {steps : List Step}

/-- Without comments, the children of a phrase are the nodes of its symbols. -/
theorem parted_childNodes (h : Fill steps ts) (hs : ∀ t ∈ ts, t.Sound text) (hP : ∀ t ∈ ts, P t)
    (hfit : ∀ n ∈ childNodes inherited steps ts, n.Whole) :
    Parted P inherited steps (withoutComments (childNodes inherited steps ts)) := by
  induction ts generalizing steps with
  | nil =>
    have hnil : [] = steps.map fun s => Label.symbol s.symbol := h
    rw [List.map_eq_nil_iff.mp hnil.symm, childNodes_nil]
    exact .nil
  | cons t ts ih =>
    obtain ⟨ht, hts⟩ := List.forall_mem_cons.mp hs
    obtain ⟨hPt, hPts⟩ := List.forall_mem_cons.mp hP
    rw [childNodes_cons] at hfit ⊢
    split at hfit
    · next hx =>
      obtain ⟨hfirst, hrest⟩ := List.forall_mem_append.mp hfit
      rw [if_pos hx, withoutComments_append, ht.withoutComments_extra hx hfirst, List.nil_append]
      exact ih ((fill_cons_extra hx).mp h) hts hPts hrest
    · next hx =>
      obtain ⟨s, rest, rfl, hlabel, hfill⟩ := fill_cons (Bool.eq_false_iff.mpr hx) h
      obtain ⟨hfirst, hrest⟩ := List.forall_mem_append.mp hfit
      rw [if_neg hx, withoutComments_append]
      exact .cons ⟨t, hPt, hlabel, hfirst, rfl⟩ (ih hfill hts hPts hrest)

/-- The children of a phrase are the nodes of the symbols of one of its productions. -/
theorem Sound.parted (h : t.Sound text) {d : Category} (hl : t.facts.label = .symbol (.category d))
    (hP : ∀ c ∈ t.children, P c)
    (hfit : ∀ n ∈ childNodes inherited (stepsOf t.facts) t.children, n.Whole) :
    ∃ steps ∈ Grammar.contents d,
      Parted P inherited steps (withoutComments (childNodes inherited (stepsOf t.facts) t.children)) := by
  obtain ⟨p, hp⟩ := h.isPhrase hl
  refine ⟨stepsOf t.facts, ?_, parted_childNodes hp.fill (fun _ => h.child) hP hfit⟩
  rw [stepsOf_some hp.production_eq]
  exact Grammar.steps_mem_contents_of_head hp.head_eq

end Tree

/-! ## Phrases -/

/-- The node shows a phrase, in which everything fits. -/
structure Node.IsPhrase (text : List Char) (d : Category) (n : Node) : Prop where
  whole : n.Whole
  shows : ∃ t, n.Shows text t ∧ t.facts.label = .symbol (.category d)

namespace Node.IsPhrase

variable {text : List Char} {d : Category} {n : Node}

/-- Only words are shown under a kind that is not their own. -/
theorem shown (h : n.IsPhrase text d) :
    ∃ t : Tree, t.Sound text ∧ t.facts.label = .symbol (.category d)
      ∧ n = Tree.nodeOf n.field none t.facts (Tree.childNodes none (Tree.stepsOf t.facts) t.children) := by
  obtain ⟨t, hshows, hl⟩ := h.shows
  obtain ⟨a, ha, hn⟩ := hshows.shown
  cases a with
  | none => exact ⟨t, hshows.sound, hl, hn⟩
  | some a =>
    have hword := ha rfl
    rw [hl] at hword
    simp [Label.IsWord, Label.ofTerminal] at hword

theorem kind_eq (h : n.IsPhrase text d) : n.kind = d.name := by
  obtain ⟨t, -, hl, hn⟩ := h.shown
  rw [hn]
  show Tree.Label.kind t.facts.label = d.name
  rw [hl]
  rfl

theorem named (h : n.IsPhrase text d) : n.named = true := by
  obtain ⟨t, -, hl, hn⟩ := h.shown
  rw [hn]
  show Tree.Label.isNamed t.facts.label = true
  rw [hl]
  rfl

theorem parted (h : n.IsPhrase text d) :
    ∃ steps ∈ Grammar.contents d, Parted (Tree.Sound text) none steps n.parts := by
  obtain ⟨t, ht, hl, hn⟩ := h.shown
  have hchildren : n.children = Tree.childNodes none (Tree.stepsOf t.facts) t.children := by
    rw [hn, Tree.children_nodeOf]
  rw [Node.parts, hchildren]
  exact ht.parted hl (fun _ => ht.child) fun c hc => h.whole.child (hchildren ▸ hc)

theorem child?_eq (h : n.IsPhrase text d) (f : Field) : n.child? f = n.parts.find? (·.field == some f) := by
  rw [Node.child?, Node.parts, withoutComments, List.find?_filter]
  refine List.find?_congr fun c hc => ?_
  by_cases hcomment : c.kind = "comment"
  · obtain ⟨t, ht, hl, hn⟩ := h.shown
    rw [hn, Tree.children_nodeOf] at hc
    rw [ht.field_of_comment (fun u hu => (ht.child hu).commentsApart) hl hc hcomment]
    simp
  · simp [Node.isComment, hcomment, beq_eq_decide]

end Node.IsPhrase

theorem Node.phrases_eq (n : Node) : n.phrases = n.parts.filter (·.named) := by
  rw [Node.phrases, Node.parts, withoutComments, List.filter_filter]

namespace Stands

variable {text : List Char} {P : Tree → Prop} {role : Option Field} {a : Option Alias} {ns : List Node}

theorem token {t : Terminal} (h : Stands P role a (.terminal t) ns) (hv : t.isVisible = true)
    (ht : t ≠ .comment) :
    ∃ c, ns = [c] ∧ c.kind = (a.map Alias.kind).getD t.name ∧ c.named = (a.isSome || t.isNamed)
      ∧ c.field = role := by
  obtain ⟨u, -, hl, -, rfl⟩ := h
  have hcomment : u.facts.label ≠ .ofTerminal .comment := by
    rw [hl]
    intro heq
    cases heq
    exact ht rfl
  rw [Tree.nodes_visible (by rw [hl]; exact hv), withoutComments_of_ne (Tree.kind_nodeOf_ne hcomment)]
  refine ⟨_, rfl, ?_, ?_, rfl⟩
  · rw [Tree.nodeOf, hl]
    rfl
  · rw [Tree.nodeOf, hl]
    rfl

theorem phrase {d : Category} (h : Stands (Tree.Sound text) role none (.category d) ns)
    (hd : d.isVisible = true) : ∃ c, ns = [c] ∧ c.IsPhrase text d ∧ c.field = role := by
  obtain ⟨u, hu, hl, hfit, rfl⟩ := h
  have hvisible : u.facts.label.isVisible = true := by rw [hl]; exact hd
  have hcomment : u.facts.label ≠ .ofTerminal .comment := by rw [hl]; exact nofun
  rw [Tree.nodes_visible hvisible] at hfit ⊢
  rw [withoutComments_of_ne (Tree.kind_nodeOf_ne hcomment)]
  exact ⟨_, rfl, ⟨hfit _ (List.mem_singleton_self _), u, ⟨hu, hvisible, none, nofun, rfl⟩, hl⟩, rfl⟩

/-- A token that is not shown has no node. -/
theorem eq_nil {t : Terminal} (h : Stands (Tree.Sound text) role a (.terminal t) ns)
    (hv : t.isVisible = false) : ns = [] := by
  obtain ⟨u, hu, hl, -, rfl⟩ := h
  rw [Tree.nodes_hidden (by rw [hl]; exact hv), hu.children_terminal hl, Tree.childNodes_nil]
  rfl

/-- A hidden phrase has the nodes of its symbols. -/
theorem hidden {d : Category} (h : Stands (Tree.Sound text) role a (.category d) ns)
    (hd : d.isVisible = false) : ∃ steps ∈ Grammar.contents d, Parted (Tree.Sound text) role steps ns := by
  obtain ⟨u, hu, hl, hfit, rfl⟩ := h
  rw [Tree.nodes_hidden (by rw [hl]; exact hd)] at hfit ⊢
  exact hu.parted hl (fun _ => hu.child) hfit

/-- A repetition has the nodes of its copies. -/
theorem repetition {r : Category} (hr : r.isVisible = false) {Q : Node → Prop}
    (hcontents : ∀ steps ∈ Grammar.contents r,
      steps = [⟨.category r, none, none⟩, ⟨.category r, none, none⟩]
        ∨ ∀ s ∈ steps, ∀ ms, Stands (Tree.Sound text) s.field s.shownAs s.symbol ms → ∀ m ∈ ms, Q m)
    (h : Stands (Tree.Sound text) none none (.category r) ns) : ∀ n ∈ ns, Q n := by
  obtain ⟨t, ht, hl, hfit, rfl⟩ := h
  -- the two halves of a repetition are smaller trees
  refine ht.induction (P := fun t => t.facts.label = .symbol (.category r) →
    (∀ n ∈ t.nodes none none, n.Whole) → ∀ n ∈ withoutComments (t.nodes none none), Q n) ?_ hl hfit
  intro t ht ih hl hfit
  rw [Tree.nodes_hidden (by rw [hl]; exact hr)] at hfit ⊢
  obtain ⟨steps, hsteps, hparted⟩ :=
    ht.parted hl (fun c hc => And.intro (ht.child hc) (ih c hc)) hfit
  refine hparted.forall_mem fun s hs ms hms => ?_
  rw [s.field_orElse_none] at hms
  obtain ⟨u, ⟨hu, ihu⟩, hlabel, hwhole, rfl⟩ := hms
  rcases hcontents steps hsteps with rfl | hcontent
  · have hs' : s = ⟨.category r, none, none⟩ := by simpa using hs
    subst hs'
    exact ihu hlabel hwhole
  · exact hcontent s hs _ ⟨u, hu, hlabel, hwhole, rfl⟩

end Stands

namespace Parted

variable {text : List Char} {f : Option Field} {a : Option Alias} {steps : List Step} {ns : List Node}

/-- The first node is that of the first symbol, if this is a token that is shown. -/
theorem uncons_token {P : Tree → Prop} {t : Terminal} (h : Parted P none (⟨.terminal t, f, a⟩ :: steps) ns)
    (hv : t.isVisible = true) (ht : t ≠ .comment) :
    ∃ c rest, ns = c :: rest ∧ c.kind = (a.map Alias.kind).getD t.name ∧ c.field = f
      ∧ Parted P none steps rest := by
  obtain ⟨xs, rest, rfl, hfirst, hrest⟩ := h.uncons
  rw [Step.field_orElse_none] at hfirst
  obtain ⟨c, rfl, hkind, -, hfield⟩ := hfirst.token hv ht
  exact ⟨c, rest, rfl, hkind, hfield, hrest⟩

/-- The first node is that of the first symbol, if this is a phrase that is shown. -/
theorem uncons_phrase {d : Category} (h : Parted (Tree.Sound text) none (⟨.category d, f, none⟩ :: steps) ns)
    (hd : d.isVisible = true) :
    ∃ c rest, ns = c :: rest ∧ c.IsPhrase text d ∧ c.field = f
      ∧ Parted (Tree.Sound text) none steps rest := by
  obtain ⟨xs, rest, rfl, hfirst, hrest⟩ := h.uncons
  rw [Step.field_orElse_none] at hfirst
  obtain ⟨c, rfl, hphrase, hfield⟩ := hfirst.phrase hd
  exact ⟨c, rest, rfl, hphrase, hfield, hrest⟩

theorem eq_nil {P : Tree → Prop} {inherited : Option Field} (h : Parted P inherited [] ns) : ns = [] := by
  cases h
  rfl

end Parted

/-- A child of the root that has the kind of a landmark shows such a phrase, if all of the tree fits. -/
theorem isPhrase_of_mem_rootOf {text : List Char} {n : Node} (hfit : (rootOf text).Fits)
    (hn : n ∈ (rootOf text).children) {d : Category} (hd : d ∈ Category.landmarks) (hk : n.kind = d.name) :
    n.IsPhrase text d := by
  obtain ⟨t, ht⟩ := shows_of_mem_rootOf hn
  exact ⟨Node.fits_iff.mp hfit n hn, t, ht, ht.label_of_kind hd hk⟩

end SpanIndex.Syntax
