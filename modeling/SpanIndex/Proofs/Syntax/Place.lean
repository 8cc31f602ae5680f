import Mathlib.Algebra.GroupWithZero.Nat
import SpanIndex.Syntax.Place

/-!
# Places belong to a text

A place carries four things: how many characters, bytes and line breaks stand before it, and what
follows. `Place.In` says that all four are true of one text. Such a place is determined by its index,
and also by its offset (`eq_of_offset`), so that two readers who arrive at the same byte stand at the
same place.
-/

namespace SpanIndex.Syntax

/-- The number of bytes of a text. -/
def byteCount (text : List Char) : Nat := (text.map Char.utf8Size).sum

namespace Place

/-- What `p` says of itself is true of `text`. -/
structure In (text : List Char) (p : Place) : Prop where
  index_le : p.index ≤ text.length
  rest_eq : p.rest = text.drop p.index
  offset_eq : p.offset = byteCount (text.take p.index)
  row_eq : p.row = (text.take p.index).count '\n'

variable {text : List Char} {p q : Place}

theorem start_in (text : List Char) : (start text).In text :=
  ⟨Nat.zero_le _, rfl, rfl, rfl⟩

/-! ## A place is determined by its index -/

theorem eq_of_index (hp : p.In text) (hq : q.In text) (h : p.index = q.index) : p = q := by
  have hrest : p.rest = q.rest := by rw [hp.rest_eq, hq.rest_eq, h]
  have hoffset : p.offset = q.offset := by rw [hp.offset_eq, hq.offset_eq, h]
  have hrow : p.row = q.row := by rw [hp.row_eq, hq.row_eq, h]
  cases p
  cases q
  simp only at h hrest hoffset hrow
  rw [h, hoffset, hrow, hrest]

theorem byteCount_take_mono (text : List Char) {i j : Nat} (h : i ≤ j) :
    byteCount (text.take i) ≤ byteCount (text.take j) := by
  obtain ⟨k, rfl⟩ := Nat.exists_eq_add_of_le h
  rw [List.take_add]
  simp [byteCount]

/-- Every character has at least one byte, so a later place has a larger offset. -/
theorem byteCount_take_lt {i j : Nat} (h : i < j) (hj : j ≤ text.length) :
    byteCount (text.take i) < byteCount (text.take j) := by
  have hi : i < text.length := by omega
  refine Nat.lt_of_lt_of_le ?_ (byteCount_take_mono text (i := i + 1) h)
  rw [List.take_add_one, List.getElem?_eq_getElem hi]
  have hpos : 0 < text[i].utf8Size := Char.utf8Size_pos _
  simp only [byteCount, List.map_append, List.sum_append, Option.toList_some, List.map_cons,
    List.map_nil, List.sum_cons, List.sum_nil]
  omega

theorem eq_of_offset (hp : p.In text) (hq : q.In text) (h : p.offset = q.offset) : p = q := by
  refine eq_of_index hp hq ?_
  rw [hp.offset_eq, hq.offset_eq] at h
  rcases Nat.lt_trichotomy p.index q.index with hlt | heq | hgt
  · exact absurd h (Nat.ne_of_lt (byteCount_take_lt hlt hq.index_le))
  · exact heq
  · exact absurd h.symm (Nat.ne_of_lt (byteCount_take_lt hgt hp.index_le))

theorem row_mono (hp : p.In text) (hq : q.In text) (h : p.index ≤ q.index) : p.row ≤ q.row := by
  obtain ⟨k, hk⟩ := Nat.exists_eq_add_of_le h
  rw [hp.row_eq, hq.row_eq, hk, List.take_add, List.count_append]
  omega

/-- There are no more line breaks before a place than in the whole text. -/
theorem In.row_le (hp : p.In text) : p.row ≤ text.count '\n' := by
  rw [hp.row_eq]
  exact (List.take_sublist _ _).count_le _

/-! ## Moving on -/

theorem In.after (hp : p.In text) {c : Char} {rest : List Char} (h : p.rest = c :: rest) :
    (p.after c rest).In text := by
  have hdrop : text.drop p.index = c :: rest := by rw [← hp.rest_eq, h]
  have hlt : p.index < text.length := by
    have := congrArg List.length hdrop
    simp at this
    omega
  have hget : text[p.index]? = some c := by
    rw [← List.head?_drop, hdrop, List.head?_cons]
  have htake : text.take (p.index + 1) = text.take p.index ++ [c] := by
    rw [List.take_add_one, hget, Option.toList_some]
  refine ⟨hlt, ?_, ?_, ?_⟩
  · show rest = text.drop (p.index + 1)
    rw [← List.drop_drop, hdrop, List.drop_succ_cons, List.drop_zero]
  · show p.offset + c.utf8Size = byteCount (text.take (p.index + 1))
    rw [htake, hp.offset_eq]
    simp [byteCount]
  · show (if c == '\n' then p.row + 1 else p.row) = (text.take (p.index + 1)).count '\n'
    rw [htake, List.count_append, ← hp.row_eq, List.count_singleton]
    split <;> rfl

theorem In.advance (hp : p.In text) (n : Nat) : (p.advance n).In text := by
  induction n generalizing p with
  | zero => exact hp
  | succ n ih =>
    rw [Place.advance]
    cases h : p.rest with
    | nil => exact hp
    | cons c rest => exact ih (hp.after h)

theorem index_advance (p : Place) (n : Nat) :
    (p.advance n).index = p.index + min n p.rest.length := by
  induction n generalizing p with
  | zero => simp [Place.advance]
  | succ n ih =>
    rw [Place.advance]
    cases h : p.rest with
    | nil => simp
    | cons c rest =>
      rw [ih, List.length_cons]
      show p.index + 1 + min n rest.length = _
      omega

theorem index_le_advance (p : Place) (n : Nat) : p.index ≤ (p.advance n).index := by
  rw [index_advance]
  omega

/-- The text that one passes over. -/
theorem textTo_advance (p : Place) (n : Nat) : p.textTo (p.advance n) = p.rest.take n := by
  rw [textTo, index_advance, Nat.add_sub_cancel_left, List.take_eq_take_iff]
  omega

theorem In.skipWhile (hp : p.In text) (skip : Char → Bool) : (p.skipWhile skip).In text :=
  hp.advance _

theorem index_le_skipWhile (p : Place) (skip : Char → Bool) :
    p.index ≤ (p.skipWhile skip).index :=
  index_le_advance p _

end Place

end SpanIndex.Syntax
