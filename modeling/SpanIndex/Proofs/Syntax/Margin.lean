import SpanIndex.Proofs.Syntax.Parse

/-!
# Line breaks in front of a text

`lowered k text` is the text with `k` line breaks in front of it. A place behind them corresponds to a
place of the text itself (`Place.raise`), and what is read there is the same: the longest token depends on
what follows, not on where it stands. Only two things look at the beginning of a text. A byte order mark
there is white space, and in a mode that looks for line breaks the first one would be a token. So the
first token is the same if the text does not begin with a byte order mark and no line break is looked for
(`Mode.SkipsLines`).
-/

namespace SpanIndex.Syntax

open Text

/-- The text with `k` line breaks in front of it. -/
def lowered (k : Nat) (text : List Char) : List Char := List.replicate k '\n' ++ text

variable {k n : Nat} {text : List Char} {p q : Place} {e : Expectation} {m : Mode}

@[simp] theorem length_lowered (k : Nat) (text : List Char) :
    (lowered k text).length = k + text.length := by
  simp [lowered]

theorem drop_lowered (k i : Nat) (text : List Char) : (lowered k text).drop (k + i) = text.drop i := by
  simp [lowered, List.drop_append]

theorem take_lowered (k i : Nat) (text : List Char) :
    (lowered k text).take (k + i) = List.replicate k '\n' ++ text.take i := by
  simp [lowered, List.take_append]

theorem isSpace_of_mem_replicate {c : Char} (h : c ∈ List.replicate k '\n') : isSpace c = true := by
  rw [List.eq_of_mem_replicate h]
  rfl

theorem dropWhile_lowered (k : Nat) (text : List Char) :
    (lowered k text).dropWhile isSpace = text.dropWhile isSpace :=
  List.dropWhile_append_of_pos fun _ => isSpace_of_mem_replicate

theorem head?_lowered (h : text.head? ≠ some '\ufeff') (k : Nat) :
    (lowered k text).head? ≠ some '\ufeff' := by
  cases k with
  | zero => exact h
  | succ k => exact fun he => by cases he

theorem length_takeWhile_lowered (k : Nat) (text : List Char) :
    ((lowered k text).takeWhile isSpace).length = k + (text.takeWhile isSpace).length := by
  rw [lowered, List.takeWhile_append_of_pos fun _ => isSpace_of_mem_replicate, List.length_append,
    List.length_replicate]

namespace Place

/-- The place of the text that `p` corresponds to in the text with `k` line breaks in front of it. Places
among the line breaks correspond to the beginning. -/
def raise (k : Nat) (p : Place) : Place :=
  ⟨p.index - k, p.offset - k, p.row - k, p.rest.drop (k - p.index)⟩

@[simp] theorem raise_start (k : Nat) (text : List Char) :
    (start (lowered k text)).raise k = start text := by
  have hrest := drop_lowered k 0 text
  simp only [raise, start, Nat.zero_sub, Nat.sub_zero, Place.mk.injEq, true_and]
  exact hrest

/-- Behind the line breaks a place has `k` more bytes and `k` more line breaks before it. -/
theorem In.lowered (hp : p.In (lowered k text)) (hk : k ≤ p.index) :
    p.offset = k + byteCount (text.take (p.index - k))
      ∧ p.row = k + (text.take (p.index - k)).count '\n' := by
  have htake := take_lowered k (p.index - k) text
  rw [Nat.add_sub_cancel' hk] at htake
  rw [hp.offset_eq, hp.row_eq, htake]
  constructor
  · have hbreak : Char.utf8Size '\n' = 1 := rfl
    simp [byteCount, hbreak]
  · rw [List.count_append, List.count_replicate_self]

theorem In.le_row (hp : p.In (Syntax.lowered k text)) (hk : k ≤ p.index) : k ≤ p.row := by
  rw [(hp.lowered hk).2]
  exact Nat.le_add_right _ _

theorem raise_in (hp : p.In (lowered k text)) (hk : k ≤ p.index) : (p.raise k).In text := by
  obtain ⟨hoffset, hrow⟩ := hp.lowered hk
  have hle := hp.index_le
  rw [length_lowered] at hle
  refine ⟨?_, ?_, ?_, ?_⟩
  · show p.index - k ≤ text.length
    omega
  · show p.rest.drop (k - p.index) = text.drop (p.index - k)
    have hdrop := drop_lowered k (p.index - k) text
    rw [Nat.add_sub_cancel' hk] at hdrop
    rw [Nat.sub_eq_zero_of_le hk, List.drop_zero, hp.rest_eq, hdrop]
  · show p.offset - k = _
    rw [hoffset, Nat.add_sub_cancel_left]
    rfl
  · show p.row - k = _
    rw [hrow, Nat.add_sub_cancel_left]
    rfl

theorem rest_raise (hk : k ≤ p.index) : (p.raise k).rest = p.rest := by
  show p.rest.drop (k - p.index) = p.rest
  rw [Nat.sub_eq_zero_of_le hk, List.drop_zero]

/-- Two places behind the line breaks have the same text between them as those they correspond to. -/
theorem textTo_raise (hp : k ≤ p.index) :
    (p.raise k).textTo (q.raise k) = p.textTo q := by
  unfold textTo
  rw [rest_raise hp]
  show p.rest.take (q.index - k - (p.index - k)) = _
  congr 1
  omega

theorem advance_raise (hp : p.In (lowered k text)) (hk : k ≤ p.index) (n : Nat) :
    (p.advance n).raise k = (p.raise k).advance n := by
  have hle : k ≤ (p.advance n).index := Nat.le_trans hk (index_le_advance p n)
  refine eq_of_index (raise_in (hp.advance n) hle) ((raise_in hp hk).advance n) ?_
  rw [index_advance, rest_raise hk]
  show (p.advance n).index - k = p.index - k + _
  rw [index_advance]
  omega

theorem skipWhile_raise (hp : p.In (lowered k text)) (hk : k ≤ p.index) (skip : Char → Bool) :
    (p.skipWhile skip).raise k = (p.raise k).skipWhile skip := by
  unfold skipWhile
  rw [advance_raise hp hk, rest_raise hk]

theorem index_skipWhile_start (skip : Char → Bool) (text : List Char) :
    ((start text).skipWhile skip).index = (text.takeWhile skip).length := by
  have hle := (List.takeWhile_prefix (l := text) skip).length_le
  show ((start text).advance _).index = _
  rw [index_advance]
  show 0 + min (text.takeWhile skip).length text.length = _
  omega

theorem rest_skipWhile_start (skip : Char → Bool) (text : List Char) :
    ((start text).skipWhile skip).rest = text.dropWhile skip := by
  have hsplit := List.takeWhile_append_dropWhile (p := skip) (l := text)
  rw [((start_in text).skipWhile skip).rest_eq, index_skipWhile_start]
  exact (congrArg (List.drop _) hsplit.symm).trans List.drop_left

/-! ## Telling places apart

Places that are compared lie at the very beginning or behind the line breaks. -/

/-- The place is not among the line breaks in front of the text. -/
def Clear (k : Nat) (p : Place) : Prop := p.index = 0 ∨ k < p.index

theorem Clear.lt_offset (hp : p.In (lowered k text)) (hk : k < p.index) : k < p.offset := by
  rw [(hp.lowered (Nat.le_of_lt hk)).1]
  have hlt : 0 < p.index - k := by omega
  have hle := hp.index_le
  rw [length_lowered] at hle
  have hpos : byteCount (text.take 0) < byteCount (text.take (p.index - k)) :=
    byteCount_take_lt hlt (by omega)
  exact Nat.lt_add_of_pos_right (Nat.lt_of_le_of_lt (Nat.zero_le _) hpos)

theorem Clear.offset (hp : p.In (lowered k text)) (h : p.Clear k) : p.offset = 0 ∨ k < p.offset := by
  rcases h with h | h
  · left
    rw [hp.offset_eq, h]
    rfl
  · exact Or.inr (Clear.lt_offset hp h)

/-- Whether two places are the same can be told from those that they correspond to. -/
theorem Clear.offset_beq (hp : p.In (lowered k text)) (h : p.Clear k) (hq : q.In (lowered k text))
    (h' : q.Clear k) : ((p.raise k).offset == (q.raise k).offset) = (p.offset == q.offset) := by
  rw [Bool.eq_iff_iff, beq_iff_eq, beq_iff_eq]
  show p.offset - k = q.offset - k ↔ _
  rcases h.offset hp with h | h <;> rcases h'.offset hq with h' | h' <;> omega

/-- So can whether two places behind the line breaks are. -/
theorem offset_beq (hp : p.In (lowered k text)) (hk : k ≤ p.index) (hq : q.In (lowered k text))
    (hk' : k ≤ q.index) : ((p.raise k).offset == (q.raise k).offset) = (p.offset == q.offset) := by
  rw [Bool.eq_iff_iff, beq_iff_eq, beq_iff_eq]
  have h1 := (hp.lowered hk).1
  have h2 := (hq.lowered hk').1
  show p.offset - k = q.offset - k ↔ _
  omega

end Place

/-! ## Tokens -/

/-- Line breaks are white space in the mode, and white space counts for nothing. -/
def Mode.SkipsLines (m : Mode) : Prop :=
  ∀ t ∈ [Terminal.newline, .rawContent, .stringContent, .closingQuote, .escapeSequence],
    m.sought.has t = false

instance (m : Mode) : Decidable m.SkipsLines := by
  unfold Mode.SkipsLines
  infer_instance

namespace Token

/-- The token in the text that corresponds to `token` in the text with `k` line breaks in front of it. -/
def raise (k : Nat) (token : Token) : Token :=
  ⟨token.found, token.start.raise k, token.stop.raise k⟩

/-- The token at a place where no white space stands. -/
def readAt (e : Expectation) (p : Place) : Token :=
  match p.rest with
  | [] => ⟨if e.hasEnd then some none else if e.has .nul then some (some .nul) else none, p, p⟩
  | c :: _ =>
    if c == '\n' && e.has .newline then ⟨some (some .newline), p, p.advance 1⟩
    else match longest e p.rest with
      | some (t, n) => ⟨some (some t), p, p.advance n⟩
      | none => ⟨none, p, p⟩

@[simp] theorem start_readAt (e : Expectation) (p : Place) : (readAt e p).start = p := by
  unfold readAt
  split
  · rfl
  · split
    · rfl
    · split <;> rfl

/-- White space is passed over unless the place is inside a string. -/
theorem scan_eq (m : Mode) (p : Place) :
    scan m p = match insideString m.sought p.rest with
      | some (t, n) => ⟨some (some t), p, p.advance n⟩
      | none =>
        if m.sought.has .rawContent then ⟨some (some .rawContent), p, p.skipWhile (· != '`')⟩
        else readAt m.sought (skipSpace m.sought p) := rfl

theorem readAt_raise (hp : p.In (lowered k text)) (hk : k ≤ p.index) (e : Expectation) :
    readAt e (p.raise k) = (readAt e p).raise k := by
  unfold readAt
  rw [Place.rest_raise hk]
  split
  · rfl
  · split
    · rw [← Place.advance_raise hp hk]
      rfl
    · split
      · rw [← Place.advance_raise hp hk]
        rfl
      · rfl

theorem skipSpace_raise (hp : p.In (lowered k text)) (hk : k < p.index) (e : Expectation) :
    skipSpace e (p.raise k) = (skipSpace e p).raise k := by
  unfold skipSpace
  extract_lets space q q'
  have hq : q = q'.raise k := (Place.skipWhile_raise hp (Nat.le_of_lt hk) space).symm
  have hlt : k < q'.index := Nat.lt_of_lt_of_le hk (Place.index_le_skipWhile p space)
  have hne : (q.index == 0) = false := by
    rw [hq, beq_eq_false_iff_ne]
    show q'.index - k ≠ 0
    omega
  have hne' : (q'.index == 0) = false := by
    rw [beq_eq_false_iff_ne]
    omega
  rw [hne, hne', Bool.false_and, Bool.false_and, if_neg Bool.false_ne_true, if_neg Bool.false_ne_true]
  exact hq

theorem scan_raise (hp : p.In (lowered k text)) (hk : k < p.index) (m : Mode) :
    scan m (p.raise k) = (scan m p).raise k := by
  have hle := Nat.le_of_lt hk
  rw [scan_eq, scan_eq, Place.rest_raise hle]
  split
  · rw [← Place.advance_raise hp hle]
    rfl
  · split
    · rw [← Place.skipWhile_raise hp hle]
      rfl
    · rw [skipSpace_raise hp hk]
      exact readAt_raise (skipSpace_in hp _)
        (Nat.le_trans hle (index_le_skipSpace p _)) _

theorem skipUnreadable_raise {rest : List Char} (hp : p.In (lowered k text)) (hk : k ≤ p.index)
    (h : p.rest = rest) : skipUnreadable (p.raise k) rest = (skipUnreadable p rest).raise k := by
  induction rest generalizing p with
  | nil => rfl
  | cons c rest ih =>
    have hafter : (p.raise k).after c rest = (p.after c rest).raise k := by
      have hadv := Place.advance_raise hp hk 1
      simp only [Place.advance, Place.rest_raise hk, h] at hadv
      exact hadv.symm
    have hq := hp.after h
    have hlt : k < (p.after c rest).index := Nat.lt_succ_of_le hk
    rw [skipUnreadable, skipUnreadable, hafter, scan_raise hq hlt]
    show (if (scan .lost (p.after c rest)).found.isSome then _ else _) = _
    split
    · rfl
    · exact ih hq (Nat.le_of_lt hlt) rfl

/-! ## The first token -/

theorem insideString_of_skipsLines (hm : m.SkipsLines) (text : List Char) :
    insideString m.sought text = none := by
  cases text with
  | nil => rfl
  | cons c rest =>
    simp [insideString, hm .stringContent (by simp), hm .closingQuote (by simp),
      hm .escapeSequence (by simp)]

theorem scan_of_skipsLines (hm : m.SkipsLines) (p : Place) :
    scan m p = readAt m.sought (skipSpace m.sought p) := by
  rw [scan_eq, insideString_of_skipsLines hm, hm .rawContent (by simp)]
  rfl

/-- There is no byte order mark at the beginning, so nothing but white space is passed over. -/
theorem skipSpace_start (hm : m.SkipsLines) (hbom : text.head? ≠ some '\ufeff') :
    skipSpace m.sought (Place.start text) = (Place.start text).skipWhile isSpace := by
  have hspace : (fun c => isSpace c && !(c == '\n' && m.sought.has .newline)) = isSpace := by
    funext c
    rw [hm .newline (by simp), Bool.and_false, Bool.not_false, Bool.and_true]
  unfold skipSpace
  rw [hspace]
  extract_lets q
  rw [if_neg]
  rw [Bool.and_eq_true, beq_iff_eq, beq_iff_eq, Place.index_skipWhile_start,
    Place.rest_skipWhile_start]
  rintro ⟨hzero, hhead⟩
  have hsplit := List.takeWhile_append_dropWhile (p := isSpace) (l := text)
  rw [List.length_eq_zero_iff.mp hzero, List.nil_append] at hsplit
  rw [hsplit] at hhead
  exact hbom hhead

theorem rest_skipSpace_start (hm : m.SkipsLines) (hbom : text.head? ≠ some '\ufeff') :
    (skipSpace m.sought (Place.start text)).rest = text.dropWhile isSpace := by
  rw [skipSpace_start hm hbom, Place.rest_skipWhile_start]

/-- The line breaks in front of a text are passed over with the white space at its beginning. -/
theorem skipSpace_lowered (hm : m.SkipsLines) (hbom : text.head? ≠ some '\ufeff') (k : Nat) :
    k ≤ (skipSpace m.sought (Place.start (lowered k text))).index
      ∧ skipSpace m.sought (Place.start text)
        = (skipSpace m.sought (Place.start (lowered k text))).raise k := by
  rw [skipSpace_start hm hbom, skipSpace_start hm (head?_lowered hbom k)]
  have hindex : ((Place.start (lowered k text)).skipWhile isSpace).index
      = k + (text.takeWhile isSpace).length := by
    rw [Place.index_skipWhile_start, length_takeWhile_lowered]
  have hle : k ≤ ((Place.start (lowered k text)).skipWhile isSpace).index := by
    rw [hindex]
    exact Nat.le_add_right _ _
  refine ⟨hle, Place.eq_of_index ((Place.start_in text).skipWhile isSpace)
    (Place.raise_in ((Place.start_in (lowered k text)).skipWhile isSpace) hle) ?_⟩
  show _ = ((Place.start (lowered k text)).skipWhile isSpace).index - k
  rw [hindex, Place.index_skipWhile_start, Nat.add_sub_cancel_left]

theorem longer_pos {best : Option (Terminal × Nat)} {s t : Terminal} {i j : Nat}
    (hbest : ∀ x, best = some x → 0 < x.2) (h : longer best t j = some (s, i)) : 0 < i := by
  cases best with
  | none =>
    simp only [longer] at h
    split at h
    · cases h
    · next hne =>
      cases h
      exact Nat.pos_of_ne_zero (by simpa using hne)
  | some b =>
    have hb := hbest b rfl
    simp only [longer] at h
    split at h
    · cases h
      omega
    · cases h
      exact hb

/-- A token that is the longest one has at least one character. -/
theorem longest_pos {t : Terminal} (h : longest e text = some (t, n)) : 0 < n := by
  have hlonger : ∀ {best t j}, (∀ x : Terminal × Nat, best = some x → 0 < x.2) →
      ∀ x, longer best t j = some x → 0 < x.2 := fun hb x hx => longer_pos hb hx
  have hnumber : ∀ {best t j}, (∀ x : Terminal × Nat, best = some x → 0 < x.2) →
      ∀ x, (if e.has t then longer best t j else best) = some x → 0 < x.2 := by
    intro best t j hb x hx
    split at hx
    · exact hlonger hb x hx
    · exact hb x hx
  unfold longest at h
  refine hnumber (hnumber (hnumber (hnumber (hnumber (hlonger ?_))))) (t, n) h
  intro x hx
  split at hx
  · exact hlonger (hlonger fun _ hnone => by cases hnone) x hx
  · exact hlonger (fun _ hnone => by cases hnone) x hx

/-- A token that is found in front of some text has at least one character, and is not the end of it. -/
theorem readAt_found {found : Lookahead} (hrest : p.rest ≠ []) (h : (readAt e p).found = some found) :
    found ≠ none ∧ p.index < (readAt e p).stop.index := by
  have hadvance : ∀ {j}, 0 < j → p.index < (p.advance j).index := by
    intro j hj
    have hlen := List.length_pos_iff.mpr hrest
    rw [Place.index_advance]
    omega
  revert h
  unfold readAt
  split
  · next hnil => exact absurd hnil hrest
  · split
    · rintro ⟨⟩
      exact ⟨Option.some_ne_none _, hadvance Nat.one_pos⟩
    · split
      · next t j hl =>
        rintro ⟨⟩
        exact ⟨Option.some_ne_none _, hadvance (longest_pos hl)⟩
      · rintro ⟨⟩

end Token

end SpanIndex.Syntax
