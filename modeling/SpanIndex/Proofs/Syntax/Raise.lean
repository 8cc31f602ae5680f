import SpanIndex.Proofs.Syntax.Fault
import SpanIndex.Proofs.Syntax.Margin

/-!
# Trees of a text with line breaks in front of it

`Tree.raise` takes a tree of the text with `k` line breaks in front of it to a tree of the text itself:
every place in it is replaced by the one it corresponds to. What trees are compared by stays the same, and
so does what is built of them as long as everything fits, since only stretches that do not fit are
measured.
-/

namespace SpanIndex.Syntax

open Text

/-- The facts about the corresponding tree. -/
def Facts.raise (k : Nat) (f : Facts) : Facts :=
  { f with before := f.before.raise k, start := f.start.raise k, stop := f.stop.raise k }

namespace Tree

mutual

/-- The tree that corresponds to a tree of the text with `k` line breaks in front of it. -/
def raise (k : Nat) : Tree → Tree
  | .node f cs => .node (f.raise k) (raiseAll k cs)

def raiseAll (k : Nat) : List Tree → List Tree
  | [] => []
  | t :: ts => t.raise k :: raiseAll k ts

end

variable {k : Nat} {text : List Char} {s t : Tree} {cs ts : List Tree} {l : Label}

theorem raiseAll_eq_map (k : Nat) (ts : List Tree) : raiseAll k ts = ts.map (raise k) := by
  induction ts with
  | nil => rfl
  | cons t ts ih => rw [raiseAll, ih, List.map_cons]

@[simp] theorem facts_raise (k : Nat) (t : Tree) : (t.raise k).facts = t.facts.raise k := by
  cases t; rfl

@[simp] theorem children_raise (k : Nat) (t : Tree) :
    (t.raise k).children = t.children.map (raise k) := by
  cases t with
  | node f cs => exact raiseAll_eq_map k cs

@[simp] theorem isVisible_raise (k : Nat) (t : Tree) : (t.raise k).isVisible = t.isVisible := by
  unfold isVisible
  rw [facts_raise]
  rfl

@[simp] theorem count_raise (k : Nat) (t : Tree) : (t.raise k).count = t.count := by
  unfold count
  rw [isVisible_raise, facts_raise]
  rfl

@[simp] theorem addWeight_raise (k : Nat) (w : Int) (t : Tree) :
    (t.raise k).addWeight w = (t.addWeight w).raise k := by
  cases t; rfl

@[simp] theorem asExtra_raise (k : Nat) (t : Tree) : (t.raise k).asExtra = t.asExtra.raise k := by
  cases t; rfl

/-! ## Choosing between trees -/

mutual

theorem compare_raise (k : Nat) : ∀ s t : Tree, (s.raise k).compare (t.raise k) = s.compare t
  | .node f cs, .node g ds => by
    rw [raise, raise, compare, compare, compareAll_raise k cs ds, raiseAll_eq_map, raiseAll_eq_map,
      List.length_map, List.length_map]
    rfl

theorem compareAll_raise (k : Nat) :
    ∀ cs ds : List Tree, compareAll (raiseAll k cs) (raiseAll k ds) = compareAll cs ds
  | [], _ => by rw [raiseAll]; rfl
  | _ :: _, [] => by rw [raiseAll, raiseAll]; rfl
  | c :: cs, d :: ds => by
    rw [raiseAll, raiseAll, compareAll, compareAll, compare_raise k c d, compareAll_raise k cs ds]

end

@[simp] theorem prefersSecond_raise (k : Nat) (s t : Tree) :
    (s.raise k).prefersSecond (t.raise k) = s.prefersSecond t := by
  unfold prefersSecond
  rw [compare_raise, facts_raise, facts_raise]
  rfl

theorem splitTrailing_raise (k : Nat) (ts : List Tree) :
    splitTrailing (ts.map (raise k))
      = ((splitTrailing ts).1.map (raise k), (splitTrailing ts).2.map (raise k)) := by
  have hextra : ((fun t : Tree => t.facts.extra) ∘ raise k) = fun t => t.facts.extra := by
    funext t
    show ((t.raise k).facts).extra = _
    rw [facts_raise]
    rfl
  unfold splitTrailing
  simp only [← List.map_reverse, List.takeWhile_map, hextra, List.length_map, List.length_reverse,
    List.map_take]

/-! ## Building trees -/

theorem build_raise (hl : l.isFault = false) (n : Option Nat) (here : Place) (cs : List Tree) :
    build l n (here.raise k) (cs.map (raise k)) = (build l n here cs).raise k := by
  have hhead : ∀ f : Tree → Place, ∀ g : Tree → Place, (∀ t, g (t.raise k) = (f t).raise k) →
      ((cs.map (raise k)).head?.map g).getD (here.raise k) = ((cs.head?.map f).getD here).raise k := by
    intro f g hfg
    rw [List.head?_map, Option.map_map]
    cases cs.head? with
    | none => rfl
    | some t => exact hfg t
  have hlast : ((cs.map (raise k)).getLast?.map (·.facts.stop)).getD (here.raise k)
      = ((cs.getLast?.map (·.facts.stop)).getD here).raise k := by
    rw [List.getLast?_map, Option.map_map]
    cases cs.getLast? with
    | none => rfl
    | some t =>
      show ((t.raise k).facts).stop = _
      rw [facts_raise]
      rfl
  have hbefore := hhead (·.facts.before) (·.facts.before) fun t => by rw [facts_raise]; rfl
  have hstart := hhead (·.facts.start) (·.facts.start) fun t => by rw [facts_raise]; rfl
  unfold build
  rw [raise, raiseAll_eq_map]
  simp only [hl, Bool.false_eq_true, if_false, List.foldl_map, facts_raise, isVisible_raise,
    children_raise, List.isEmpty_map, hbefore, hstart, hlast]
  rfl

/-- The last tree is the one that takes the others in, so nothing is measured unless that does not fit. -/
theorem spliceLast?_raise (h : ∀ t ∈ ts, t.facts.extra = false → t.facts.label.isFault = false) :
    spliceLast? (ts.map (raise k)) = (spliceLast? ts).map (raise k) := by
  unfold spliceLast?
  extract_lets split' split
  have hsplit : split' = (split.1.map (raise k), split.2.map (raise k)) := splitTrailing_raise k ts
  rw [hsplit]
  simp only [List.getLast?_map, Option.map_map]
  cases hlast : split.1.getLast? with
  | none => rfl
  | some t =>
    have hmem : t ∈ ts.filter fun t => !t.facts.extra :=
      List.mem_of_getLast? (Reading.getLast?_splitTrailing ts ▸ hlast)
    rw [List.mem_filter, Bool.not_eq_true'] at hmem
    simp only [Option.map_some, Function.comp_apply, facts_raise, children_raise, ← List.map_dropLast,
      ← List.map_append, Option.some.injEq]
    exact build_raise (h t hmem.1 hmem.2) _ _ _

/-! ## Trees that can stand for each other -/

/-- Nothing in the tree costs anything. -/
inductive Costless : Tree → Prop
  | node {f : Facts} {cs : List Tree} (cost_eq : f.cost = 0) (children : ∀ c ∈ cs, Costless c) :
      Costless (.node f cs)

theorem Costless.cost_eq (h : t.Costless) : t.facts.cost = 0 := by
  cases h with
  | node h _ => exact h

theorem Costless.child (h : t.Costless) {c : Tree} (hc : c ∈ t.children) : c.Costless := by
  cases h with
  | node _ h => exact h c hc

theorem Costless.addWeight (h : t.Costless) (w : Int) : (t.addWeight w).Costless := by
  cases h with
  | node hf hcs => exact .node hf hcs

theorem Costless.asExtra (h : t.Costless) : t.asExtra.Costless := by
  cases h with
  | node hf hcs => exact .node hf hcs

theorem costless_build (hl : l.isFault = false) (n : Option Nat) (here : Place)
    (h : ∀ c ∈ cs, c.Costless) : (build l n here cs).Costless := by
  refine .node (Nat.eq_zero_of_not_pos fun hpos => ?_) h
  rcases exists_cost_of_build hpos with hfault | ⟨c, hc, hcost⟩
  · rw [hl] at hfault
    cases hfault
  · exact Nat.ne_of_gt hcost (h c hc).cost_eq

/-- The tree fits, and stands behind the `k` line breaks in front of the text. -/
structure Plain (k : Nat) (t : Tree) : Prop where
  costless : t.Costless
  fits : t.facts.label.isFault = false
  le_start : k ≤ t.facts.start.index
  lt_stop : k < t.facts.stop.index

/-- Whether two trees can stand for each other can be told from those that they correspond to. -/
theorem equivalent_raise (hs : s.Sound (lowered k text)) (ht : t.Sound (lowered k text))
    (hps : s.Plain k) (hpt : t.Plain k) (hbs : s.facts.before.Clear k) (hbt : t.facts.before.Clear k) :
    (s.raise k).equivalent (t.raise k) = s.equivalent t := by
  have hs' := hs.placed
  have ht' := ht.placed
  unfold equivalent
  simp only [facts_raise, children_raise, List.length_map]
  show (_ && (_ || (s.facts.before.raise k).offset == (t.facts.before.raise k).offset
    && (s.facts.start.raise k).offset == (t.facts.start.raise k).offset
    && (s.facts.stop.raise k).offset == (t.facts.stop.raise k).offset && _ && _)) = _
  rw [hbs.offset_beq hs'.before_in ht'.before_in hbt,
    Place.offset_beq hs'.start_in hps.le_start ht'.start_in hpt.le_start,
    Place.offset_beq hs'.stop_in (Nat.le_trans hps.le_start hs'.start_le) ht'.stop_in
      (Nat.le_trans hpt.le_start ht'.start_le)]
  rfl

theorem Covers.le_start {p q : Place} (h : Covers p cs q) (hs : ∀ c ∈ cs, c.facts.Placed text) {c : Tree}
    (hc : c ∈ cs) : p.index ≤ c.facts.start.index := by
  induction cs generalizing p with
  | nil => cases hc
  | cons d ds ih =>
    have hd := hs d List.mem_cons_self
    have hbefore := hd.before_le
    rw [h.1] at hbefore
    rcases List.mem_cons.mp hc with rfl | hc
    · exact hbefore
    · have hrest := ih h.2 (fun x hx => hs x (List.mem_cons_of_mem _ hx)) hc
      exact Nat.le_trans (Nat.le_trans hbefore hd.start_le) hrest

/-- What a tree consists of begins no earlier than the tree. -/
theorem Sound.start_le_child (h : t.Sound text) {c : Tree} (hc : c ∈ t.children) :
    t.facts.start.index ≤ c.facts.start.index := by
  have hfilled : ∀ {f : Facts} {cs : List Tree}, Filled f cs → (∀ c ∈ cs, c.Sound text) → c ∈ cs →
      f.start.index ≤ c.facts.start.index := by
    intro f cs hf hcs hc
    cases cs with
    | nil => cases hc
    | cons d ds =>
      rw [hf.start_eq d rfl]
      rcases List.mem_cons.mp hc with rfl | hc
      · exact Nat.le_refl _
      · exact Nat.le_trans (hcs d List.mem_cons_self).placed.start_le
          (hf.covers.2.le_start (fun x hx => (hcs x (List.mem_cons_of_mem _ hx)).placed) hc)
  cases h with
  | token _ _ _ _ => cases hc
  | absent _ _ _ _ => cases hc
  | phrase _ _ _ _ filled _ _ hcs => exact hfilled filled hcs hc
  | fault _ _ _ _ filled hcs => exact hfilled filled hcs hc

end Tree

/-! ## Tokens as trees -/

namespace Reading

variable {k : Nat} {text : List Char} {p : Place} {st : Option State} {e : Expectation} {token : Token}

/-- The tree of a token that was looked for at the place `p`. -/
def treeOfToken (e : Expectation) (p : Place) (token : Token) : Tree :=
  match token.found with
  | none => Tree.leaf .error p token.start (Token.skipUnreadable token.start token.start.rest)
  | some none => Tree.leaf .endOfInput p token.start token.stop
  | some (some .identifier) =>
    match Token.keyword? (token.start.textTo token.stop) with
    | none => Tree.leaf (.ofTerminal .identifier) p token.start token.stop
    | some t =>
      let isKeyword := e.has t || Token.isReservedIn e t
      .node
        { label := .ofTerminal (if isKeyword then t else .identifier)
          before := p
          start := token.start
          stop := token.stop
          keyword := true } []
  | some (some t) => Tree.leaf (.ofTerminal t) p token.start token.stop

/-- The tokens that are looked for in a state. -/
def soughtIn (st : Option State) : Expectation := (st.map fun st => st.expected).getD Mode.lost.sought

/-- What is read at a place in a state, or any token if that is not there. -/
def tokenIn (st : Option State) (p : Place) : Token :=
  let token := Token.scan (Mode.ofExpectation (soughtIn st)) p
  if token.found.isSome then token else Token.scan .lost p

theorem tokenAt_eq (st : Option State) (p : Place) :
    tokenAt st p = treeOfToken (soughtIn st) p (tokenIn st p) := rfl

theorem treeOfToken_raise (hin : token.start.In (lowered k text)) (hk : k ≤ token.start.index)
    (e : Expectation) (p : Place) :
    treeOfToken e (p.raise k) (token.raise k) = (treeOfToken e p token).raise k := by
  have hstop : Token.skipUnreadable (token.start.raise k) (token.start.raise k).rest
      = (Token.skipUnreadable token.start token.start.rest).raise k := by
    rw [Place.rest_raise hk]
    exact Token.skipUnreadable_raise hin hk rfl
  have htext : (token.start.raise k).textTo (token.stop.raise k) = token.start.textTo token.stop :=
    Place.textTo_raise hk
  unfold treeOfToken
  simp only [Token.raise, hstop, htext]
  split
  · rfl
  · rfl
  · split
    · rfl
    · rfl
  · rfl

theorem costless_treeOfToken (e : Expectation) (p : Place) (token : Token) :
    (treeOfToken e p token).Costless := by
  unfold treeOfToken
  split
  · exact .node rfl fun _ hc => by cases hc
  · exact .node rfl fun _ hc => by cases hc
  · split
    · exact .node rfl fun _ hc => by cases hc
    · exact .node rfl fun _ hc => by cases hc
  · exact .node rfl fun _ hc => by cases hc

theorem start_treeOfToken (e : Expectation) (p : Place) (token : Token) :
    (treeOfToken e p token).facts.start = token.start := by
  unfold treeOfToken
  split
  · rfl
  · rfl
  · split <;> rfl
  · rfl

theorem costless_tokenAt (st : Option State) (p : Place) : (tokenAt st p).Costless :=
  costless_treeOfToken _ _ _

/-- Behind the line breaks the same token is read in the same state. -/
theorem tokenAt_raise (hp : p.In (lowered k text)) (hk : k < p.index) (st : Option State) :
    tokenAt st (p.raise k) = (tokenAt st p).raise k := by
  have htoken : tokenIn st (p.raise k) = (tokenIn st p).raise k := by
    unfold tokenIn
    rw [Token.scan_raise hp hk, Token.scan_raise hp hk]
    show (if (Token.scan _ p).found.isSome then _ else _) = Token.raise k (if _ then _ else _)
    split <;> rfl
  have hreads : (tokenIn st p).Reads (lowered k text) p := reads_or_lost hp _
  rw [tokenAt_eq, tokenAt_eq, htoken]
  exact treeOfToken_raise hreads.start_in
    (Nat.le_trans (Nat.le_of_lt hk) hreads.le_start) _ _

/-! ## The first token -/

theorem skipsLines_lost : Mode.lost.SkipsLines := by decide

/-- Characters that belong to no token are passed over, at least one. -/
theorem lt_skipUnreadable {rest : List Char} (hp : p.In text) (h : p.rest = rest) (hne : rest ≠ []) :
    p.index < (Token.skipUnreadable p rest).index := by
  cases rest with
  | nil => exact absurd rfl hne
  | cons c rest =>
    have hq := hp.after h
    rw [Token.skipUnreadable]
    split
    · exact Nat.lt_succ_self _
    · exact (Token.skipUnreadable_in hq rfl).2

/-- A token in front of some text has at least one character, and is not the end of it. -/
theorem lt_treeOfToken (hin : token.start.In text) (hrest : token.start.rest ≠ [])
    (hfound : ∀ found, token.found = some found →
      found ≠ none ∧ token.start.index < token.stop.index) (e : Expectation) (p : Place) :
    (treeOfToken e p token).facts.label ≠ .endOfInput
      ∧ token.start.index < (treeOfToken e p token).facts.stop.index := by
  unfold treeOfToken
  split
  · exact ⟨by rintro ⟨⟩, lt_skipUnreadable hin rfl hrest⟩
  · next h => exact absurd rfl (hfound none h).1
  · next h =>
    split
    · exact ⟨by rintro ⟨⟩, (hfound _ h).2⟩
    · exact ⟨by rintro ⟨⟩, (hfound _ h).2⟩
  · next h => exact ⟨by rintro ⟨⟩, (hfound _ h).2⟩

/-- The first token is read where the white space at the beginning ends, in one mode or the other. -/
theorem tokenIn_start (hm : (Mode.ofExpectation (soughtIn st)).SkipsLines)
    (hbom : text.head? ≠ some '\ufeff') (k : Nat) :
    ∃ (m : Mode) (q : Place), q.In (lowered k text) ∧ k ≤ q.index ∧ q.rest = text.dropWhile isSpace
      ∧ tokenIn st (Place.start (lowered k text)) = Token.readAt m.sought q
      ∧ tokenIn st (Place.start text) = (Token.readAt m.sought q).raise k := by
  have hread : ∀ {m : Mode}, m.SkipsLines → ∃ q : Place, q.In (lowered k text) ∧ k ≤ q.index
      ∧ q.rest = text.dropWhile isSpace
      ∧ Token.scan m (Place.start (lowered k text)) = Token.readAt m.sought q
      ∧ Token.scan m (Place.start text) = (Token.readAt m.sought q).raise k := by
    intro m hm
    obtain ⟨hle, heq⟩ := Token.skipSpace_lowered hm hbom k
    have hin := Token.skipSpace_in (Place.start_in (lowered k text)) m.sought
    have hrest := Token.rest_skipSpace_start hm (head?_lowered hbom k)
    rw [dropWhile_lowered] at hrest
    refine ⟨_, hin, hle, hrest, Token.scan_of_skipsLines hm _, ?_⟩
    rw [Token.scan_of_skipsLines hm, heq]
    exact Token.readAt_raise hin hle _
  obtain ⟨q, hin, hle, hrest, hscan, hscan0⟩ := hread hm
  obtain ⟨q', hin', hle', hrest', hscan', hscan0'⟩ := hread skipsLines_lost
  unfold tokenIn
  simp only [hscan, hscan0, hscan', hscan0']
  cases hfound : (Token.readAt (Mode.ofExpectation (soughtIn st)).sought q).found with
  | none => exact ⟨.lost, q', hin', hle', hrest', by simp, by simp [Token.raise, hfound]⟩
  | some found =>
    exact ⟨Mode.ofExpectation (soughtIn st), q, hin, hle, hrest, by simp,
      by simp [Token.raise, hfound]⟩

/-- The tree `t` of the text with `k` line breaks in front of it corresponds to the first token of the text
itself, which is not blank. -/
structure OpensWith (k : Nat) (text : List Char) (st : Option State) (t : Tree) : Prop where
  raise_eq : t.raise k = tokenAt st (Place.start text)
  le_start : k ≤ t.facts.start.index
  lt_stop : k < t.facts.stop.index
  not_end : t.facts.label ≠ .endOfInput

theorem tokenAt_start (hm : (Mode.ofExpectation (soughtIn st)).SkipsLines)
    (hbom : text.head? ≠ some '\ufeff') (hblank : text.dropWhile isSpace ≠ []) (k : Nat) :
    OpensWith k text st (tokenAt st (Place.start (lowered k text))) := by
  obtain ⟨m, q, hin, hle, hrest, htoken, htoken0⟩ := tokenIn_start hm hbom k
  have hstart : (Token.readAt m.sought q).start = q := Token.start_readAt _ _
  rw [← hrest] at hblank
  obtain ⟨hlabel, hlt⟩ :
      (treeOfToken (soughtIn st) (Place.start (lowered k text)) (Token.readAt m.sought q)).facts.label
          ≠ .endOfInput
        ∧ q.index < (treeOfToken (soughtIn st) (Place.start (lowered k text))
          (Token.readAt m.sought q)).facts.stop.index := by
    have hlt := @lt_treeOfToken (lowered k text) (Token.readAt m.sought q)
    rw [hstart] at hlt
    exact hlt hin hblank (fun found hfound => Token.readAt_found hblank hfound) _ _
  rw [tokenAt_eq, htoken]
  refine ⟨?_, ?_, Nat.lt_of_le_of_lt hle hlt, hlabel⟩
  · rw [tokenAt_eq, htoken0, ← Place.raise_start k text]
    exact (treeOfToken_raise (by rw [hstart]; exact hin) (by rw [hstart]; exact hle) _ _).symm
  · rw [start_treeOfToken, hstart]
    exact hle

end Reading

end SpanIndex.Syntax
