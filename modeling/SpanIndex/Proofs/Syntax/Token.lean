import SpanIndex.Proofs.Syntax.Place
import SpanIndex.Syntax.Parse

/-!
# What a token is made of

A token that is read at a place begins and ends at places of the same text. If it is an identifier,
its characters are those of an identifier; if it is a keyword, they spell the keyword
(`Terminal.Spells`). Nothing else is needed of tokens later on.
-/

namespace SpanIndex.Syntax

open Text

/-- The text of a token that is a word: an identifier is made of identifier characters, and a keyword
is spelled as in the table of keywords. -/
structure Terminal.Spells (t : Terminal) (word : List Char) : Prop where
  identifier : t = .identifier → isIdentifier word = true
  keyword : ∀ spelling, (spelling, t) ∈ Terminal.keywords → word = spelling

/-- Keywords are made of identifier characters too. -/
theorem Terminal.isIdentifier_of_mem_keywords {spelling : List Char} {t : Terminal}
    (h : (spelling, t) ∈ Terminal.keywords) : isIdentifier spelling = true := by
  have hall : ∀ k ∈ Terminal.keywords, isIdentifier k.1 = true := by decide
  exact hall _ h

namespace Token

/-! ## The longest token -/

/-- Only identifiers are read as words: whether a word is a keyword is found out afterwards. -/
def WordShaped (t : Terminal) (word : List Char) : Prop :=
  t ∈ Mode.words → t = .identifier ∧ isIdentifier word = true

theorem wordShaped_of_not_mem {t : Terminal} {word : List Char} (h : t ∉ Mode.words) :
    WordShaped t word := fun ht => absurd ht h

theorem longer_cases {best : Option (Terminal × Nat)} {s t : Terminal} {m n : Nat}
    (h : longer best t n = some (s, m)) : best = some (s, m) ∨ (s, m) = (t, n) := by
  cases best with
  | none =>
    simp only [longer] at h
    split at h
    · simp at h
    · exact Or.inr (Option.some.inj h).symm
  | some b =>
    simp only [longer] at h
    split at h
    · exact Or.inr (Option.some.inj h).symm
    · exact Or.inl h

/-- A candidate for the longest token is a word only if it is an identifier. -/
def Candidate (text : List Char) (best : Option (Terminal × Nat)) : Prop :=
  ∀ t n, best = some (t, n) → WordShaped t (text.take n)

theorem Candidate.longer {text : List Char} {best : Option (Terminal × Nat)} {t : Terminal}
    {n : Nat} (hb : Candidate text best) (ht : WordShaped t (text.take n)) :
    Candidate text (longer best t n) := by
  intro s m h
  rcases longer_cases h with h | h
  · exact hb s m h
  · cases h
    exact ht

theorem isIdentifier_word {e : Expectation} {text : List Char} (h : wordLength e text ≠ 0) :
    isIdentifier (text.take (wordLength e text)) = true := by
  cases text with
  | nil => exact absurd rfl h
  | cons c rest =>
    rw [wordLength] at h ⊢
    split at h
    · next hc =>
      have hpre : rest.take (rest.takeWhile isIdentifierPart).length
          = rest.takeWhile isIdentifierPart :=
        (List.prefix_iff_eq_take.mp (List.takeWhile_prefix _)).symm
      rw [Bool.and_eq_true] at hc
      rw [if_pos (by simp [hc]), List.take_succ_cons, hpre, isIdentifier, hc.1]
      simp
    · exact absurd rfl h

theorem candidate_word (e : Expectation) (text : List Char) :
    Candidate text (longer none .identifier (wordLength e text)) := by
  intro t n h
  rw [longer] at h
  split at h
  · simp at h
  · next hne =>
    cases h
    exact fun _ => ⟨rfl, isIdentifier_word (by simpa using hne)⟩

theorem punctuation_not_word : ∀ x ∈ Terminal.punctuation, x.2 ∉ Mode.words := by decide

theorem candidate_longest (e : Expectation) (text : List Char) :
    Candidate text (longest e text) := by
  have hnumber : ∀ {best t n}, Candidate text best → t ∉ Mode.words →
      Candidate text (if e.has t then longer best t n else best) := by
    intro best t n hb ht
    split
    · exact hb.longer (wordShaped_of_not_mem ht)
    · exact hb
  unfold longest
  refine hnumber (hnumber (hnumber (hnumber (hnumber ?_ (by decide)) (by decide)) (by decide))
    (by decide)) (by decide)
  refine Candidate.longer ?_ (wordShaped_of_not_mem (by decide))
  split
  · next spelling t hf =>
    exact (candidate_word e text).longer
      (wordShaped_of_not_mem (punctuation_not_word _ (List.mem_of_find?_eq_some hf)))
  · exact candidate_word e text

/-! ## The token at a place -/

/-- A token begins at or after the place where it is looked for, in the same text, and if it is a word
then it is an identifier. -/
structure Reads (text : List Char) (p : Place) (token : Token) : Prop where
  start_in : token.start.In text
  stop_in : token.stop.In text
  le_start : p.index ≤ token.start.index
  start_le : token.start.index ≤ token.stop.index
  word : ∀ t, token.found = some (some t) → WordShaped t (token.start.textTo token.stop)

theorem insideString_not_word {e : Expectation} {text : List Char} {t : Terminal} {n : Nat}
    (h : insideString e text = some (t, n)) : t ∉ Mode.words := by
  cases text with
  | nil => simp [insideString] at h
  | cons c rest =>
    simp only [insideString] at h
    split at h
    · cases h; decide
    · split at h
      · cases h; decide
      · split at h
        · cases h; decide
        · simp at h

variable {text : List Char} {p : Place}

/-- A token of a given length at a place. -/
theorem reads_advance {q : Place} (hq : q.In text) (hle : p.index ≤ q.index) {t : Terminal}
    {n : Nat} (h : WordShaped t (q.rest.take n)) :
    Reads text p ⟨some (some t), q, q.advance n⟩ where
  start_in := hq
  stop_in := hq.advance n
  le_start := hle
  start_le := Place.index_le_advance q n
  word := by
    intro s hs
    cases hs
    rw [Place.textTo_advance]
    exact h

/-- A token without text. -/
theorem reads_here {q : Place} (hq : q.In text) (hle : p.index ≤ q.index)
    {found : Option Lookahead} (h : ∀ t, found = some (some t) → t ∉ Mode.words) :
    Reads text p ⟨found, q, q⟩ where
  start_in := hq
  stop_in := hq
  le_start := hle
  start_le := Nat.le_refl _
  word := fun t ht => wordShaped_of_not_mem (h t ht)

theorem skipSpace_in (hp : p.In text) (e : Expectation) : (skipSpace e p).In text := by
  unfold skipSpace
  simp only
  split
  · exact ((hp.skipWhile _).advance 1).skipWhile _
  · exact hp.skipWhile _

theorem index_le_skipSpace (p : Place) (e : Expectation) : p.index ≤ (skipSpace e p).index := by
  unfold skipSpace
  simp only
  split
  · exact Nat.le_trans (Place.index_le_skipWhile p _)
      (Nat.le_trans (Place.index_le_advance _ 1) (Place.index_le_skipWhile _ _))
  · exact Place.index_le_skipWhile p _

theorem reads_scan (hp : p.In text) (m : Mode) : Reads text p (scan m p) := by
  unfold scan
  simp only
  split
  · next t n hs =>
    exact reads_advance hp (Nat.le_refl _) (wordShaped_of_not_mem (insideString_not_word hs))
  · split
    · exact reads_advance hp (Nat.le_refl _) (wordShaped_of_not_mem (by decide))
    · have hq := skipSpace_in hp m.sought
      have hle := index_le_skipSpace p m.sought
      split
      · refine reads_here hq hle ?_
        intro t ht
        split at ht
        · simp at ht
        · split at ht
          · cases ht; decide
          · simp at ht
      · split
        · exact reads_advance hq hle (wordShaped_of_not_mem (by decide))
        · split
          · next t n hl => exact reads_advance hq hle (candidate_longest _ _ t n hl)
          · exact reads_here hq hle (by simp)

theorem skipUnreadable_in {rest : List Char} (hp : p.In text) (h : p.rest = rest) :
    (skipUnreadable p rest).In text ∧ p.index ≤ (skipUnreadable p rest).index := by
  induction rest generalizing p with
  | nil => exact ⟨hp, Nat.le_refl _⟩
  | cons c rest ih =>
    have hq : (p.after c rest).In text := hp.after h
    have hle : p.index ≤ (p.after c rest).index := Nat.le_succ _
    rw [skipUnreadable]
    split
    · exact ⟨hq, hle⟩
    · exact ⟨(ih hq rfl).1, Nat.le_trans hle (ih hq rfl).2⟩

theorem mem_keywords_of_keyword? {word : List Char} {t : Terminal} (h : keyword? word = some t) :
    (word, t) ∈ Terminal.keywords := by
  unfold keyword? at h
  obtain ⟨k, hk, rfl⟩ := Option.map_eq_some_iff.mp h
  have hspelling := List.find?_some hk
  rw [beq_iff_eq] at hspelling
  rw [← hspelling]
  exact List.mem_of_find?_eq_some hk

end Token

end SpanIndex.Syntax
