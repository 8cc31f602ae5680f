import SpanIndex.Proofs.Syntax.Token

/-!
# Sound syntax trees

A tree is sound for a text if it tells the truth about it at every level. A token has the characters
that its label asks for, the children of a phrase are those of a production of the grammar, and the
children of any tree follow each other without a gap. Nothing is said about costs and weights: they
decide which tree is chosen, not whether it is sound.
-/

namespace SpanIndex.Syntax

/-- The symbols of a production, as the labels of trees. -/
def Production.labels (p : Production) : List Label := p.steps.toList.map fun s => .symbol s.symbol

/-- The places of a tree lie in the text, in this order, and only comments, errors and the end of the
text stand apart from the phrase around them. -/
structure Facts.Placed (text : List Char) (f : Facts) : Prop where
  before_in : f.before.In text
  start_in : f.start.In text
  stop_in : f.stop.In text
  before_le : f.before.index ≤ f.start.index
  start_le : f.start.index ≤ f.stop.index
  apart : f.extra = true → f.label = .ofTerminal .comment ∨ f.label = .error ∨ f.label = .endOfInput

namespace Tree

/-- The trees follow each other without a gap from `p` to `q`. -/
def Covers : Place → List Tree → Place → Prop
  | p, [], q => p = q
  | p, t :: ts, q => t.facts.before = p ∧ Covers t.facts.stop ts q

/-- The labels of the trees that are parts of the phrase around them. -/
def parts (trees : List Tree) : List Label :=
  (trees.filter fun t => !t.facts.extra).map (·.facts.label)

/-- The children reach from one end of a tree to the other, and it starts where the first one does. -/
structure Filled (f : Facts) (children : List Tree) : Prop where
  covers : Covers f.before children f.stop
  start_eq : ∀ c, children.head? = some c → f.start = c.facts.start

/-- What the tree says is true of the text. -/
inductive Sound (text : List Char) : Tree → Prop
  /-- Something that stands in the text: a token, characters that are no token, or its end. -/
  | token {f : Facts} (placed : f.Placed text) (present : f.missing = false)
      (production : f.production = none)
      (label : (∃ t, f.label = .ofTerminal t ∧ t.Spells (f.start.textTo f.stop))
        ∨ (f.label = .error ∧ f.extra = false) ∨ f.label = .endOfInput) :
      Sound text (.node f [])
  /-- A token that was supplied. -/
  | absent {f : Facts} {t : Terminal} (placed : f.Placed text) (missing : f.missing = true)
      (production : f.production = none) (label : f.label = .ofTerminal t) : Sound text (.node f [])
  /-- A phrase, whose parts are those of a production; it begins with one of them. -/
  | phrase {f : Facts} {cs : List Tree} {p : Nat} (placed : f.Placed text)
      (present : f.missing = false) (production : f.production = some p)
      (label : f.label = .symbol (.category (Grammar.production p).head))
      (filled : Filled f cs) (parts_eq : parts cs = (Grammar.production p).labels)
      (first : ∀ c, cs.head? = some c → c.facts.extra = false)
      (children : ∀ c ∈ cs, Sound text c) : Sound text (.node f cs)
  /-- A stretch of text that does not fit. -/
  | fault {f : Facts} {cs : List Tree} (placed : f.Placed text) (present : f.missing = false)
      (production : f.production = none) (label : f.label.isFault = true)
      (filled : Filled f cs) (children : ∀ c ∈ cs, Sound text c) : Sound text (.node f cs)

variable {text : List Char} {t : Tree} {p q r : Place} {cs ds : List Tree}

theorem Sound.placed (h : t.Sound text) : t.facts.Placed text := by
  cases h with
  | token placed _ _ _ => exact placed
  | absent placed _ _ _ => exact placed
  | phrase placed _ _ _ _ _ _ _ => exact placed
  | fault placed _ _ _ _ _ => exact placed

theorem Sound.child (h : t.Sound text) {c : Tree} (hc : c ∈ t.children) : c.Sound text := by
  cases h with
  | token _ _ _ _ => simp [children] at hc
  | absent _ _ _ _ => simp [children] at hc
  | phrase _ _ _ _ _ _ _ hcs => exact hcs c hc
  | fault _ _ _ _ _ hcs => exact hcs c hc

/-- A token that stands in the text is spelled as it must be. -/
theorem Sound.spells (h : t.Sound text) {s : Terminal} (hl : t.facts.label = .ofTerminal s)
    (hm : t.facts.missing = false) : s.Spells (t.facts.start.textTo t.facts.stop) := by
  cases h with
  | token _ _ _ label =>
    simp only [facts] at hl ⊢
    rw [hl] at label
    rcases label with ⟨s', hs', hspells⟩ | ⟨hs', -⟩ | hs'
    · cases hs'
      exact hspells
    · cases hs'
    · cases hs'
  | absent _ missing _ _ =>
    simp only [facts] at hm
    rw [hm] at missing
    cases missing
  | phrase _ _ _ label _ _ _ _ =>
    simp only [facts] at hl
    rw [hl] at label
    cases label
  | fault _ _ _ label _ _ =>
    simp only [facts] at hl
    rw [hl] at label
    cases label

/-- What holds of a sound tree if it holds of its children holds of all of them. -/
theorem Sound.induction {P : Tree → Prop}
    (hstep : ∀ t, t.Sound text → (∀ c ∈ t.children, P c) → P t) (h : t.Sound text) : P t := by
  induction h with
  | token placed present production label =>
    exact hstep _ (.token placed present production label) fun c hc => nomatch hc
  | absent placed missing production label =>
    exact hstep _ (.absent placed missing production label) fun c hc => nomatch hc
  | phrase placed present production label filled parts_eq first children ih =>
    exact hstep _ (.phrase placed present production label filled parts_eq first children) ih
  | fault placed present production label filled children ih =>
    exact hstep _ (.fault placed present production label filled children) ih

/-- What is known of a phrase. -/
structure IsPhrase (text : List Char) (t : Tree) (c : Category) (p : Nat) : Prop where
  production_eq : t.facts.production = some p
  head_eq : (Grammar.production p).head = c
  present : t.facts.missing = false
  filled : Filled t.facts t.children
  parts_eq : parts t.children = (Grammar.production p).labels
  first : ∀ x, t.children.head? = some x → x.facts.extra = false

theorem Sound.isPhrase (h : t.Sound text) {c : Category}
    (hl : t.facts.label = .symbol (.category c)) : ∃ p, t.IsPhrase text c p := by
  cases h with
  | token _ _ _ label =>
    simp only [facts] at hl
    rw [hl] at label
    rcases label with ⟨s, hs, -⟩ | ⟨hs, -⟩ | hs <;> cases hs
  | absent _ _ _ label =>
    simp only [facts] at hl
    rw [hl] at label
    cases label
  | @phrase f cs p _ present production label filled parts_eq first _ =>
    simp only [facts] at hl
    rw [hl, Label.symbol.injEq, Symbol.category.injEq] at label
    exact ⟨p, production, label.symm, present, filled, parts_eq, first⟩
  | fault _ _ _ label _ _ =>
    simp only [facts] at hl
    rw [hl] at label
    cases label

/-- The children of a tree reach from one end to the other, if it has any. -/
theorem Sound.children_covers (h : t.Sound text) :
    t.children = [] ∨ Covers t.facts.before t.children t.facts.stop := by
  cases h with
  | token _ _ _ _ => exact Or.inl rfl
  | absent _ _ _ _ => exact Or.inl rfl
  | phrase _ _ _ _ filled _ _ _ => exact Or.inr filled.covers
  | fault _ _ _ _ filled _ => exact Or.inr filled.covers

/-- The end of the text has no parts. -/
theorem Sound.children_endOfInput (h : t.Sound text) (hl : t.facts.label = .endOfInput) :
    t.children = [] := by
  cases h with
  | token _ _ _ _ => rfl
  | absent _ _ _ _ => rfl
  | phrase _ _ _ label _ _ _ _ =>
    simp only [facts] at hl
    rw [hl] at label
    cases label
  | fault _ _ _ label _ _ =>
    simp only [facts] at hl
    rw [hl] at label
    cases label

/-- An error node that stands between the parts of a phrase is made of its children. -/
theorem Sound.covers_of_extra (h : t.Sound text) (hl : t.facts.label = .error)
    (he : t.facts.extra = true) : Covers t.facts.before t.children t.facts.stop := by
  cases h with
  | token _ _ _ label =>
    simp only [facts] at hl he
    rcases label with ⟨s, hs, -⟩ | ⟨-, hx⟩ | hend
    · rw [hl] at hs
      cases hs
    · rw [he] at hx
      cases hx
    · rw [hl] at hend
      cases hend
  | absent _ _ _ label =>
    simp only [facts] at hl
    rw [hl] at label
    cases label
  | phrase _ _ _ _ filled _ _ _ => exact filled.covers
  | fault _ _ _ _ filled _ => exact filled.covers

/-! ## Trees in a row -/

theorem covers_append : Covers p (cs ++ ds) r ↔ ∃ q, Covers p cs q ∧ Covers q ds r := by
  induction cs generalizing p with
  | nil => simp [Covers]
  | cons c cs ih =>
    simp only [List.cons_append, Covers, ih]
    constructor
    · rintro ⟨hc, q, h, h'⟩
      exact ⟨q, ⟨hc, h⟩, h'⟩
    · rintro ⟨q, ⟨hc, h⟩, h'⟩
      exact ⟨hc, q, h, h'⟩

theorem Covers.append (h : Covers p cs q) (h' : Covers q ds r) : Covers p (cs ++ ds) r :=
  covers_append.mpr ⟨q, h, h'⟩

theorem Covers.stop_eq (h : Covers p cs q) : (cs.getLast?.map (·.facts.stop)).getD p = q := by
  induction cs generalizing p with
  | nil => exact h
  | cons c cs ih =>
    have hrest := ih h.2
    cases cs with
    | nil => exact hrest
    | cons d ds =>
      rw [List.getLast?_cons_cons]
      rw [List.getLast?_cons] at hrest ⊢
      exact hrest

theorem Covers.index_le (h : Covers p cs q) (hs : ∀ c ∈ cs, c.facts.Placed text) :
    p.index ≤ q.index := by
  induction cs generalizing p with
  | nil => exact Nat.le_of_eq (congrArg Place.index h)
  | cons c cs ih =>
    have hc := hs c List.mem_cons_self
    have hrest := ih h.2 fun d hd => hs d (List.mem_cons_of_mem _ hd)
    rw [← h.1]
    exact Nat.le_trans (Nat.le_trans hc.before_le hc.start_le) hrest

/-- Trees in a row end at a place of the text. -/
theorem Covers.stop_in (h : Covers p cs q) (hp : p.In text) (hs : ∀ c ∈ cs, c.Sound text) :
    q.In text := by
  induction cs generalizing p with
  | nil => exact h ▸ hp
  | cons c cs ih =>
    exact ih h.2 (hs c List.mem_cons_self).placed.stop_in
      fun d hd => hs d (List.mem_cons_of_mem _ hd)

/-! ## Building trees -/

variable {l : Label} {n : Option Nat}

theorem before_build (h : Covers p cs q) : (build l n p cs).facts.before = p := by
  cases cs with
  | nil => rfl
  | cons c cs => exact h.1

theorem stop_build (h : Covers p cs q) : (build l n p cs).facts.stop = q := h.stop_eq

theorem filled_build (h : Covers p cs q) : Filled (build l n p cs).facts cs where
  covers := by rw [before_build h, stop_build h]; exact h
  start_eq := by
    intro c hc
    show (cs.head?.map (·.facts.start)).getD p = c.facts.start
    rw [hc]
    rfl

theorem placed_build (hp : p.In text) (h : Covers p cs q) (hs : ∀ c ∈ cs, c.Sound text) :
    (build l n p cs).facts.Placed text := by
  have hq := h.stop_in hp hs
  have hbefore := before_build (l := l) (n := n) h
  have hstop := stop_build (l := l) (n := n) h
  cases cs with
  | nil =>
    have hpq : p = q := h
    exact ⟨hp, hp, hp, Nat.le_refl _, Nat.le_refl _, fun hx => nomatch hx⟩
  | cons c cs =>
    have hc := (hs c List.mem_cons_self).placed
    have hrest : c.facts.stop.index ≤ q.index :=
      h.2.index_le fun d hd => (hs d (List.mem_cons_of_mem _ hd)).placed
    refine ⟨by rw [hbefore]; exact hp, hc.start_in, by rw [hstop]; exact hq, hc.before_le, ?_,
      fun hx => nomatch hx⟩
    rw [hstop]
    exact Nat.le_trans hc.start_le hrest

/-- Trees in a row make a phrase if their parts are those of a production. -/
theorem sound_phrase {k : Nat} (hp : p.In text) (h : Covers p cs q)
    (hs : ∀ c ∈ cs, c.Sound text) (hparts : parts cs = (Grammar.production k).labels)
    (hfirst : ∀ c, cs.head? = some c → c.facts.extra = false) :
    (build (.symbol (.category (Grammar.production k).head)) (some k) p cs).Sound text :=
  .phrase (placed_build hp h hs) rfl rfl rfl (filled_build h) hparts hfirst hs

/-- Any trees in a row make a stretch that does not fit. -/
theorem sound_fault (hl : l.isFault = true) (hp : p.In text) (h : Covers p cs q)
    (hs : ∀ c ∈ cs, c.Sound text) : (build l none p cs).Sound text :=
  .fault (placed_build hp h hs) rfl rfl hl (filled_build h) hs

theorem sound_absent (hp : p.In text) (s : Terminal) : (absent s p).Sound text :=
  .absent ⟨hp, hp, hp, Nat.le_refl _, Nat.le_refl _, fun hx => nomatch hx⟩ rfl rfl rfl

@[simp] theorem before_addWeight (w : Int) (t : Tree) :
    (t.addWeight w).facts.before = t.facts.before := by
  cases t; rfl

@[simp] theorem stop_addWeight (w : Int) (t : Tree) :
    (t.addWeight w).facts.stop = t.facts.stop := by
  cases t; rfl

@[simp] theorem label_addWeight (w : Int) (t : Tree) :
    (t.addWeight w).facts.label = t.facts.label := by
  cases t; rfl

@[simp] theorem extra_addWeight (w : Int) (t : Tree) :
    (t.addWeight w).facts.extra = t.facts.extra := by
  cases t; rfl

@[simp] theorem before_asExtra (t : Tree) : t.asExtra.facts.before = t.facts.before := by
  cases t; rfl

@[simp] theorem stop_asExtra (t : Tree) : t.asExtra.facts.stop = t.facts.stop := by
  cases t; rfl

@[simp] theorem label_asExtra (t : Tree) : t.asExtra.facts.label = t.facts.label := by
  cases t; rfl

@[simp] theorem extra_asExtra (t : Tree) : t.asExtra.facts.extra = true := by
  cases t; rfl

/-- Costs and weights do not matter, and a comment may be set apart. -/
theorem Sound.congr {f g : Facts} (h : Sound text (.node f cs)) (hl : g.label = f.label)
    (hn : g.production = f.production) (hm : g.missing = f.missing) (hb : g.before = f.before)
    (hs : g.start = f.start) (he : g.stop = f.stop)
    (hx : g.extra = f.extra ∨ f.label = .ofTerminal .comment) :
    Sound text (.node g cs) := by
  have hplaced : g.Placed text := by
    obtain ⟨h1, h2, h3, h4, h5, h6⟩ := h.placed
    refine ⟨hb ▸ h1, hs ▸ h2, he ▸ h3, by rw [hb, hs]; exact h4, by rw [hs, he]; exact h5, ?_⟩
    intro hg
    rw [hl]
    rcases hx with hx | hx
    · exact h6 (hx ▸ hg)
    · exact Or.inl hx
  have hfilled (hf : Filled f cs) : Filled g cs :=
    ⟨by rw [hb, he]; exact hf.covers, fun c hc => by rw [hs]; exact hf.start_eq c hc⟩
  cases h with
  | token _ present production label =>
    refine .token hplaced (hm.trans present) (hn.trans production) ?_
    rw [hl, hs, he]
    rcases label with hspell | ⟨herr, hext⟩ | hend
    · exact Or.inl hspell
    · refine Or.inr (Or.inl ⟨herr, ?_⟩)
      rcases hx with hx | hx
      · exact hx.trans hext
      · rw [herr] at hx
        cases hx
    · exact Or.inr (Or.inr hend)
  | absent _ missing production label =>
    exact .absent hplaced (hm.trans missing) (hn.trans production) (hl.trans label)
  | phrase _ present production label filled parts_eq first hcs =>
    exact .phrase hplaced (hm.trans present) (hn.trans production) (hl.trans label)
      (hfilled filled) parts_eq first hcs
  | fault _ present production label filled hcs =>
    exact .fault hplaced (hm.trans present) (hn.trans production) (hl ▸ label)
      (hfilled filled) hcs

theorem Sound.addWeight (h : t.Sound text) (w : Int) : (t.addWeight w).Sound text := by
  cases t
  exact h.congr rfl rfl rfl rfl rfl rfl (Or.inl rfl)

theorem Sound.asExtra (h : t.Sound text) (hl : t.facts.label = .ofTerminal .comment) :
    t.asExtra.Sound text := by
  cases t
  exact h.congr rfl rfl rfl rfl rfl rfl (Or.inr hl)

/-- An error node can be set apart from the phrase around it. -/
theorem sound_extra_error (hp : p.In text) (h : Covers p cs q) (hs : ∀ c ∈ cs, c.Sound text) :
    (build .error none p cs).asExtra.Sound text :=
  have hplaced := placed_build (l := .error) (n := none) hp h hs
  have hfilled := filled_build (l := .error) (n := none) h
  .fault ⟨hplaced.before_in, hplaced.start_in, hplaced.stop_in, hplaced.before_le,
    hplaced.start_le, fun _ => Or.inr (Or.inl rfl)⟩ rfl rfl rfl
    ⟨hfilled.covers, hfilled.start_eq⟩ hs

end Tree

end SpanIndex.Syntax
