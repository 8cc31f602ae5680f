import SpanIndex.Proofs.Syntax.Item

/-!
# The productions of a phrase

A production has a number, and the number says nothing of the phrase that it belongs to. Its symbols are
one of the `contents` of that phrase, though, and these can be looked through one phrase at a time.
-/

namespace SpanIndex.Syntax.Grammar

/-- The sequences of symbols that a phrase can consist of. -/
def contents (c : Category) : List (List Step) :=
  (definitions c).flatMap fun d => d.content.alternatives.map (·.steps)

theorem steps_mem_contents_of_mem {q : Production} (h : q ∈ productions) :
    q.steps.toList ∈ contents q.head := by
  obtain ⟨c, -, hq⟩ := List.mem_flatMap.mp h
  obtain ⟨d, hd, hq⟩ := List.mem_flatMap.mp hq
  obtain ⟨a, ha, rfl⟩ := List.mem_map.mp hq
  exact List.mem_flatMap.mpr ⟨d, hd, List.mem_map.mpr ⟨a, ha, rfl⟩⟩

/-- The symbols of a production are those of its phrase. A number that stands for none gives an empty
file. -/
theorem steps_mem_contents (p : Nat) : (production p).steps.toList ∈ contents (production p).head := by
  have hcases : production p ∈ productions ∨ production p = default := by
    unfold production productionTable
    rw [Array.getD_eq_getD_getElem?, List.getElem?_toArray]
    cases h : productions[p]? with
    | none => exact Or.inr rfl
    | some q => exact Or.inl (List.mem_of_getElem? h)
  rcases hcases with h | h
  · exact steps_mem_contents_of_mem h
  · rw [h]
    decide

/-- The symbols of a production that belongs to a given phrase. -/
theorem steps_mem_contents_of_head {p : Nat} {c : Category} (h : (production p).head = c) :
    (production p).steps.toList ∈ contents c :=
  h ▸ steps_mem_contents p

/-- The production of a whole file has the file as its only symbol. -/
theorem steps_of_goal {p : Nat} (h : (production p).head = .goal) :
    (production p).steps.toList = [⟨.category .sourceFile, none, none⟩] :=
  List.mem_singleton.mp (steps_mem_contents_of_head h)

theorem symbol_of_goal {p : Nat} (h : (production p).head = .goal) :
    ((production p).steps[0]?).map (·.symbol) = some (.category .sourceFile) := by
  rw [← Array.getElem?_toList, steps_of_goal h]
  rfl

/-- Only words are shown under a kind that is not their own. -/
theorem word_of_shownAs {c : Category} {steps : List Step} (h : steps ∈ contents c) {s : Step}
    (hs : s ∈ steps) (ha : s.shownAs.isSome = true) :
    s.symbol ∈ [.terminal .identifier, .terminal .kwNew, .terminal .kwMake] := by
  have hall : ∀ c ∈ Category.all, ∀ steps ∈ contents c, ∀ s ∈ steps, s.shownAs.isSome = true →
      s.symbol ∈ [.terminal .identifier, .terminal .kwNew, .terminal .kwMake] := by
    decide +kernel
  exact hall c (List.mem_of_getElem? c.getElem?_all) steps h s hs ha

end SpanIndex.Syntax.Grammar
