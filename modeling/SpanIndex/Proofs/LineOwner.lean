import SpanIndex.Proofs.Span

/-!
# The declaration that a line belongs to

Several declarations may cover a line: they can stand in it one after the other, or one begins where the one
ahead of it ends. The search takes the first of them. Since the records of a file follow the text, that is the
one whose predecessor has ended before the line, and it is found as well by looking for the first record that
does not end before the line.
-/

namespace SpanIndex

open Syntax (Node byteCount)

/-! ## Nodes in order -/

theorem Syntax.InOrder.le_startRow {i j : Nat} {n : Node} {ns : List Node} (h : InOrder i ns j)
    (hn : n ∈ ns) : i ≤ n.startRow := by
  induction h with
  | nil => cases hn
  | cons first within _ ih =>
    rcases List.mem_cons.mp hn with rfl | hn
    · exact first
    · exact Nat.le_trans (Nat.le_trans first within) (ih hn)

/-- Nodes in order do not begin before an earlier one has ended. -/
theorem Syntax.InOrder.pairwise {i j : Nat} {ns : List Node} (h : InOrder i ns j) :
    ns.Pairwise fun m n => m.endRow ≤ n.startRow := by
  induction h with
  | nil => exact .nil
  | cons _ _ rest ih => exact .cons (fun n hn => rest.le_startRow hn) ih

/-! ## Records whose lines follow each other -/

/-- The records follow each other. One may begin in the line where the one ahead of it ends. -/
structure SpansInOrder (records : List Record) : Prop where
  proper : ∀ r ∈ records, r.startLine ≤ r.endLine
  apart : records.Pairwise fun r s => r.endLine ≤ s.startLine

namespace SpansInOrder

variable {r : Record} {records : List Record} {line : UInt32}

theorem of_cons (h : SpansInOrder (r :: records)) : SpansInOrder records :=
  ⟨(List.forall_mem_cons.mp h.proper).2, h.apart.of_cons⟩

theorem endLine_le_startLine (h : SpansInOrder records) {j k : Nat} (hjk : j < k)
    (hk : k < records.length) : records[j].endLine ≤ records[k].startLine :=
  List.pairwise_iff_getElem.mp h.apart j k (Nat.lt_trans hjk hk) hk hjk

theorem endLine_le (h : SpansInOrder records) {j k : Nat} (hjk : j ≤ k) (hk : k < records.length) :
    records[j].endLine ≤ records[k].endLine := by
  rcases Nat.lt_or_eq_of_le hjk with hlt | rfl
  · exact UInt32.le_trans (h.endLine_le_startLine hlt hk) (h.proper _ (List.getElem_mem hk))
  · exact UInt32.le_refl _

/-- The first record that covers a line is the one that covers it after its predecessor has ended. -/
theorem findIdx?_contains_iff (h : SpansInOrder records) {k : Nat} (hk : k < records.length) :
    records.findIdx? (·.contains line) = some k
      ↔ records[k].startLine ≤ line ∧ line ≤ records[k].endLine
        ∧ (k = 0 ∨ records[k - 1].endLine < line) := by
  simp only [List.findIdx?_eq_some_iff_getElem, Record.contains, Bool.and_eq_true, decide_eq_true_eq,
    not_and, UInt32.not_le]
  constructor
  · rintro ⟨_, ⟨hstart, hend⟩, hbefore⟩
    refine ⟨hstart, hend, ?_⟩
    rcases Nat.eq_zero_or_pos k with hzero | hpos
    · exact Or.inl hzero
    · have hprev : k - 1 < k := Nat.sub_lt hpos Nat.one_pos
      have hbegun : records[k - 1].startLine ≤ line :=
        UInt32.le_trans (h.proper _ (List.getElem_mem _))
          (UInt32.le_trans (h.endLine_le_startLine hprev hk) hstart)
      exact Or.inr (hbefore (k - 1) hprev hbegun)
  · rintro ⟨hstart, hend, hprev⟩
    refine ⟨hk, ⟨hstart, hend⟩, fun j hj _ => ?_⟩
    rcases hprev with rfl | hprev
    · exact absurd hj (Nat.not_lt_zero j)
    · have hended : records[j].endLine ≤ records[k - 1].endLine :=
        h.endLine_le (Nat.le_sub_one_of_lt hj) (Nat.lt_of_le_of_lt (Nat.sub_le k 1) hk)
      exact UInt32.lt_of_le_of_lt hended hprev

/-- Instead of the record that covers a line one may look for the first that does not end before it. -/
theorem find?_contains_eq (h : SpansInOrder records) :
    records.find? (·.contains line)
      = (records.find? (line ≤ ·.endLine)).filter (·.startLine ≤ line) := by
  induction records with
  | nil => rfl
  | cons r records ih =>
    have hlater := List.pairwise_cons.mp h.apart
    by_cases hend : line ≤ r.endLine
    · have hfirst : (r :: records).find? (line ≤ ·.endLine) = some r :=
        List.find?_cons_of_pos (by simp [hend])
      rw [hfirst, Option.filter_some]
      by_cases hstart : r.startLine ≤ line
      · rw [List.find?_cons_of_pos (by simp [Record.contains, hend, hstart]), if_pos (by simp [hstart])]
      · rw [List.find?_cons_of_neg (by simp [Record.contains, hstart]), if_neg (by simp [hstart]),
          List.find?_eq_none]
        -- all that comes later begins behind the line, too
        intro s hs hcontains
        rw [Record.contains, Bool.and_eq_true, decide_eq_true_eq, decide_eq_true_eq] at hcontains
        have hreach : r.startLine ≤ s.startLine :=
          UInt32.le_trans (h.proper r List.mem_cons_self) (hlater.1 s hs)
        exact hstart (UInt32.le_trans hreach hcontains.1)
    · rw [List.find?_cons_of_neg (by simp [Record.contains, hend]),
        List.find?_cons_of_neg (by simp [hend])]
      exact ih h.of_cons

end SpansInOrder

/-! ## Files with an index -/

namespace Index

variable {o : Options} {source : List Char} {i : Index}

theorem spansInOrder (h : ofSource o source = .ok i) (hsize : byteCount source < 4294967296) :
    SpansInOrder i.declarations := by
  obtain ⟨-, -, -, hdeclarations⟩ := of_ofSource h
  have hlines := toNat_lines h hsize
  have horder := (Syntax.rootOf_inOrder source).sublist (declarationNodes_sublist _)
  rw [hdeclarations, classify]
  constructor
  · rw [List.forall_mem_map]
    intro n hn
    obtain ⟨hs, he⟩ := hlines n hn
    rw [Record.startLine_ofNode, Record.endLine_ofNode, UInt32.le_iff_toNat_le, hs, he]
    exact Nat.succ_le_succ (horder.of_mem hn).1
  · rw [List.pairwise_map]
    refine horder.pairwise.imp_of_mem fun {m n} hm hn hmn => ?_
    rw [Record.startLine_ofNode, Record.endLine_ofNode, UInt32.le_iff_toNat_le, (hlines m hm).2,
      (hlines n hn).1]
    exact Nat.succ_le_succ hmn

/-- The search for the declaration at a line stops at the record that covers the line after its predecessor
has ended. So it finds nothing just if no record covers the line, and it may as well take the first record that
does not end before the line and ask whether that one has begun. -/
theorem declarationAt_owner (h : ofSource o source = .ok i) (hsize : byteCount source < 4294967296)
    (line : UInt32) :
    i.declarationAt line = (i.declarations.findIdx? (·.contains line)).bind (i.declarations[·]?)
      ∧ (∀ (k : Nat) (hk : k < i.declarations.length),
        i.declarations.findIdx? (·.contains line) = some k
          ↔ i.declarations[k].startLine ≤ line ∧ line ≤ i.declarations[k].endLine
            ∧ (k = 0 ∨ i.declarations[k - 1].endLine < line))
      ∧ (i.declarationAt line = none
        ↔ ∀ r ∈ i.declarations, ¬ (r.startLine ≤ line ∧ line ≤ r.endLine))
      ∧ i.declarationAt line
        = (i.declarations.find? (line ≤ ·.endLine)).filter (·.startLine ≤ line) := by
  have horder := spansInOrder h hsize
  refine ⟨List.find?_eq_bind_findIdx?_getElem?, fun k hk => horder.findIdx?_contains_iff hk, ?_,
    horder.find?_contains_eq⟩
  simp [declarationAt, Record.contains]

/-- Two declarations cover the second line, and it belongs to the first of them. -/
theorem declarationAt_owner_crowded :
    ofSource {} crowded = .ok crowdedIndex ∧ byteCount crowded < 4294967296
      ∧ crowdedIndex.declarations.findIdx? (·.contains 2) = some 0
      ∧ (∀ (k : Nat) (hk : k < crowdedIndex.declarations.length),
        crowdedIndex.declarations.findIdx? (·.contains 2) = some k
          ↔ crowdedIndex.declarations[k].startLine ≤ 2 ∧ 2 ≤ crowdedIndex.declarations[k].endLine
            ∧ (k = 0 ∨ crowdedIndex.declarations[k - 1].endLine < 2))
      ∧ crowdedIndex.declarationAt 2
        = (crowdedIndex.declarations.find? (2 ≤ ·.endLine)).filter (·.startLine ≤ 2) := by
  obtain ⟨-, hstops, -, hfirst⟩ := declarationAt_owner ofSource_crowded (by decide) 2
  exact ⟨ofSource_crowded, by decide, by decide, hstops, hfirst⟩

end Index

end SpanIndex
