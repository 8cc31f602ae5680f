import SpanIndex.Syntax.Recovery

/-!
# What the items of a state say about the past

An item with its mark behind a symbol is in a state only if that symbol has just been read, and the
item with the mark before it was in the state before that (`State.holds_advance`), unless the production
has only begun. So the marks of a state record what lies on top of the stack, and a production that can
be closed (`State.Closes`) has all its symbols there.
-/

namespace SpanIndex.Syntax

/-! ## Codes of symbols -/

theorem Terminal.getElem?_all (t : Terminal) : Terminal.all[t.ctorIdx]? = some t := by
  cases t <;> rfl

theorem Category.getElem?_all (c : Category) : Category.all[c.ctorIdx]? = some c := by
  cases c <;> rfl

theorem Terminal.code_lt (t : Terminal) : t.code < Terminal.codeCount := by
  obtain ⟨h, -⟩ := List.getElem?_eq_some_iff.mp t.getElem?_all
  exact Nat.succ_lt_succ h

theorem Symbol.code_injective {s s' : Symbol} (h : s.code = s'.code) : s = s' := by
  cases s with
  | terminal t =>
    cases s' with
    | terminal t' =>
      have hidx : t.ctorIdx = t'.ctorIdx := Nat.succ.inj h
      have hall := t.getElem?_all
      rw [hidx, t'.getElem?_all] at hall
      rw [Option.some.inj hall]
    | category c' =>
      have ht : t.code < Terminal.codeCount := t.code_lt
      simp only [Symbol.code] at h
      omega
  | category c =>
    cases s' with
    | terminal t' =>
      have ht : t'.code < Terminal.codeCount := t'.code_lt
      simp only [Symbol.code] at h
      omega
    | category c' =>
      have hidx : c.ctorIdx = c'.ctorIdx := Nat.add_left_cancel h
      have hall := c.getElem?_all
      rw [hidx, c'.getElem?_all] at hall
      rw [Option.some.inj hall]

/-! ## Productions by their number -/

namespace Grammar

theorem production_of_getElem? {p : Nat} {q : Production} (h : productions[p]? = some q) :
    production p = q := by
  unfold production productionTable
  rw [Array.getD_eq_getD_getElem?, List.getElem?_toArray, h]
  rfl

theorem first?_of_mem_beginnings {p : Nat} {code : Option Nat} (h : (p, code) ∈ beginnings) :
    (production p).first?.map Symbol.code = code := by
  obtain ⟨⟨q, i⟩, hq, heq⟩ := List.mem_map.mp h
  cases heq
  rw [production_of_getElem? (List.mem_zipIdx_iff_getElem?.mp hq)]

theorem first?_of_mem_leading {p : Nat} {s : Symbol} (h : p ∈ leading s) :
    (production p).first? = some s := by
  unfold leading leadingTable at h
  rw [Array.getD_eq_getD_getElem?, List.getElem?_toArray, List.getElem?_map] at h
  cases hc : (List.range (Terminal.codeCount + Category.all.length))[s.code]? with
  | none => simp [hc] at h
  | some code =>
    rw [hc] at h
    obtain ⟨⟨i, first⟩, hmem, rfl⟩ := List.mem_map.mp h
    obtain ⟨hbegin, hfirst⟩ := List.mem_filter.mp hmem
    have hcode : s.code = code := by
      obtain ⟨hlt, hget⟩ := List.getElem?_eq_some_iff.mp hc
      rw [← hget, List.getElem_range]
    have hmap := first?_of_mem_beginnings hbegin
    rw [beq_iff_eq.mp hfirst, ← hcode] at hmap
    obtain ⟨s', hs', heq⟩ := Option.map_eq_some_iff.mp hmap
    rw [hs', Symbol.code_injective heq]

theorem steps_of_mem_emptyProductions {p : Nat} (h : p ∈ emptyProductions) :
    (production p).steps.size = 0 := by
  obtain ⟨⟨i, first⟩, hmem, rfl⟩ := List.mem_map.mp h
  obtain ⟨hbegin, hfirst⟩ := List.mem_filter.mp hmem
  have hmap := first?_of_mem_beginnings hbegin
  rw [Option.isNone_iff_eq_none.mp hfirst, Option.map_eq_none_iff] at hmap
  unfold Production.first? at hmap
  rw [Option.map_eq_none_iff, Array.getElem?_eq_none_iff] at hmap
  exact Nat.le_zero.mp hmap

end Grammar

/-! ## Items of a state -/

/-- The item before its last symbol was read. -/
def Item.back (i : Item) : Item := ⟨i.production, i.dot - 1⟩

namespace State

/-- The item is under way. -/
def Holds (st : State) (i : Item) : Prop := ∃ after, (i, after) ∈ st.items

/-- No mark stands behind the end of its production. -/
def Bounded (st : State) : Prop := ∀ i, st.Holds i → i.dot ≤ i.rule.steps.size

variable {st st' : State} {s : Symbol} {i : Item}

theorem items_ofItems (items : List (Item × Expectation)) : (ofItems items).items = items := rfl

/-- Nothing has been read at the start. -/
theorem dot_of_holds_start (h : start.Holds i) : i.dot = 0 := by
  obtain ⟨after, h⟩ := h
  rw [start, items_ofItems, List.mem_singleton, Prod.mk.injEq] at h
  rw [h.1]

theorem bounded_start : start.Bounded := by
  intro i h
  rw [dot_of_holds_start h]
  exact Nat.zero_le _

theorem items_advance (h : st.advance s = some st') : st'.items = st.advancedItems s := by
  unfold advance at h
  split at h
  · simp at h
  · next items hitems =>
    rw [← Option.some.inj h, items_ofItems]

/-- An item is in the next state because the symbol stood behind its mark before, or because its
production begins with the symbol. -/
theorem holds_advance (h : st.advance s = some st') (hi : st'.Holds i) :
    0 < i.dot ∧ i.back.next? = some s ∧ (1 < i.dot → st.Holds i.back) := by
  obtain ⟨after, hmem⟩ := hi
  rw [items_advance h] at hmem
  rcases List.mem_append.mp hmem with hmem | hmem
  · obtain ⟨⟨j, after'⟩, hj, heq⟩ := List.mem_filterMap.mp hmem
    simp only at heq
    split at heq
    · next hn =>
      cases heq
      exact ⟨Nat.succ_pos _, beq_iff_eq.mp hn, fun _ => ⟨after, hj⟩⟩
    · cases heq
  · obtain ⟨p, hp, heq⟩ := List.mem_filterMap.mp hmem
    have hfirst := Grammar.first?_of_mem_leading hp
    split at heq
    · cases heq
    · cases heq
      exact ⟨Nat.one_pos, hfirst, fun hlt => absurd hlt (Nat.lt_irrefl 1)⟩

theorem Bounded.advance (h : st.advance s = some st') : st'.Bounded := by
  intro i hi
  obtain ⟨hpos, hnext, -⟩ := holds_advance h hi
  unfold Item.next? at hnext
  obtain ⟨step, hstep, -⟩ := Option.map_eq_some_iff.mp hnext
  obtain ⟨hlt, -⟩ := Array.getElem?_eq_some_iff.mp hstep
  have hrule : i.back.rule = i.rule := rfl
  have hdot : i.back.dot = i.dot - 1 := rfl
  rw [hrule, hdot] at hlt
  omega

/-! ## Productions that can be closed -/

/-- All symbols of the production have been read. -/
def Closes (st : State) (p : Nat) : Prop :=
  st.Holds ⟨p, (Grammar.production p).steps.size⟩ ∨ (Grammar.production p).steps.size = 0

theorem closes_of_mem_closable (hst : st.Bounded) {l : Lookahead} {p : Nat}
    (h : p ∈ st.closable l) : st.Closes p := by
  have hall := (List.mem_filter.mp h).1
  rcases List.mem_append.mp hall with hmem | hmem
  · obtain ⟨⟨i, after⟩, hi, heq⟩ := List.mem_filterMap.mp hmem
    simp only at heq
    split at heq
    · next hcond =>
      obtain rfl := Option.some.inj heq
      rw [Bool.and_eq_true, Option.isNone_iff_eq_none] at hcond
      have hnext := hcond.1
      unfold Item.next? at hnext
      rw [Option.map_eq_none_iff, Array.getElem?_eq_none_iff] at hnext
      have hdot : i.dot = (Grammar.production i.production).steps.size :=
        Nat.le_antisymm (hst i ⟨after, hi⟩) hnext
      refine Or.inl ⟨after, ?_⟩
      rw [← hdot]
      exact hi
    · cases heq
  · exact Or.inr (Grammar.steps_of_mem_emptyProductions (List.mem_filter.mp hmem).1)

theorem mem_resolve {t : Terminal} {closing : List Nat} {a : Action}
    (h : a ∈ st.resolve t closing) :
    a ∈ closing.map Action.reduce ∨ a = .shift ∨ a = .shiftRepetition := by
  unfold resolve at h
  extract_lets rule reduces continuing ending heads inRepetition at h
  split at h
  · rcases List.mem_append.mp h with h | h
    · exact Or.inl h
    · exact Or.inr (Or.inr (List.mem_singleton.mp h))
  · split at h
    · exact Or.inr (Or.inl (List.mem_singleton.mp h))
    · split at h
      · exact Or.inl h
      · split at h
        · exact Or.inl h
        · split at h
          · exact Or.inr (Or.inl (List.mem_singleton.mp h))
          · rcases List.mem_append.mp h with h | h
            · exact Or.inl h
            · exact Or.inr (Or.inl (List.mem_singleton.mp h))

theorem mem_actions {l : Lookahead} {a : Action} (h : a ∈ st.actions l) :
    (a = .accept ∧ l = none ∧ ∃ p ∈ st.closable l, (Grammar.production p).head = .goal)
      ∨ a ∈ (st.closable l).map Action.reduce ∨ a = .shift ∨ a = .shiftRepetition := by
  unfold actions at h
  extract_lets closing at h
  split at h
  · split at h
    · next hany =>
      obtain ⟨p, hp, hhead⟩ := List.any_eq_true.mp hany
      exact Or.inl ⟨List.mem_singleton.mp h, rfl, p, hp, beq_iff_eq.mp hhead⟩
    · exact Or.inr (Or.inl h)
  · right
    split at h
    · split at h
      · exact Or.inr (Or.inl (List.mem_singleton.mp h))
      · exact mem_resolve h
    · exact Or.inl h

/-- What can be closed in front of a token has been read in full. -/
theorem closes_of_reduce_mem (hst : st.Bounded) {l : Lookahead} {p : Nat}
    (h : Action.reduce p ∈ st.actions l) : st.Closes p := by
  rcases mem_actions h with ⟨h, -⟩ | h | h | h
  · cases h
  · obtain ⟨q, hq, heq⟩ := List.mem_map.mp h
    cases heq
    exact closes_of_mem_closable hst hq
  · cases h
  · cases h

/-- A file is complete only at the end of the text, where the production of a whole file can be
closed. -/
theorem closes_of_accept_mem (hst : st.Bounded) {l : Lookahead}
    (h : Action.accept ∈ st.actions l) :
    l = none ∧ ∃ p, st.Closes p ∧ (Grammar.production p).head = .goal := by
  rcases mem_actions h with ⟨-, hl, p, hp, hhead⟩ | h | h | h
  · exact ⟨hl, p, closes_of_mem_closable hst hp, hhead⟩
  · obtain ⟨q, -, heq⟩ := List.mem_map.mp h
    cases heq
  · cases h
  · cases h

theorem mem_addClosing {found : List Nat} {a : Action} {p : Nat}
    (h : p ∈ Reading.addClosing found a) : p ∈ found ∨ a = .reduce p := by
  cases a with
  | reduce q =>
    simp only [Reading.addClosing] at h
    split at h
    · exact Or.inl h
    · rcases List.mem_append.mp h with h | h
      · exact Or.inl h
      · exact Or.inr (by rw [List.mem_singleton.mp h])
  | shift => exact Or.inl h
  | shiftRepetition => exact Or.inl h
  | accept => exact Or.inl h

theorem mem_foldl_addClosing {actions : List Action} {found : List Nat} {p : Nat}
    (h : p ∈ actions.foldl Reading.addClosing found) : p ∈ found ∨ Action.reduce p ∈ actions := by
  induction actions generalizing found with
  | nil => exact Or.inl h
  | cons a actions ih =>
    rcases ih h with h | h
    · rcases mem_addClosing h with h | h
      · exact Or.inl h
      · exact Or.inr (h ▸ List.mem_cons_self)
    · exact Or.inr (List.mem_cons_of_mem _ h)

theorem closes_of_mem_possibleSteps (hst : st.Bounded) {label : Option Label} {p : Nat}
    (h : p ∈ (Reading.possibleSteps st label).1) : st.Closes p := by
  unfold Reading.possibleSteps at h
  rcases mem_foldl_addClosing h with h | h
  · cases h
  · obtain ⟨t, -, ht⟩ := List.mem_flatMap.mp h
    exact closes_of_reduce_mem hst ht

end State

end SpanIndex.Syntax
