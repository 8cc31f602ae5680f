import Mathlib.Data.List.DropRight
import SpanIndex.Format

/-!
# Records as lines

The line of a record is read back as the record if the record is `Writable`, and what is read from a line
without inner newlines is writable. Nothing is escaped, so all rests on where delimiters and line ends can
stand: none in a label or a number, and a name comes last.
-/

namespace SpanIndex

/-! ## Numbers -/

namespace Text

theorem isDigit_of_mem_decimal {n : Nat} {c : Char} (h : c ∈ decimal n) : c.isDigit = true :=
  Nat.isDigit_of_mem_toDigits (by decide) (by decide) h

theorem not_mem_decimal {n : Nat} {c : Char} (hc : c.isDigit = false) : c ∉ decimal n := by
  intro h
  rw [isDigit_of_mem_decimal h] at hc
  cases hc

theorem le_ofDigitChars (cs : List Char) (v : Nat) : v ≤ Nat.ofDigitChars 10 cs v := by
  induction cs generalizing v with
  | nil => exact Nat.le_refl v
  | cons c cs ih =>
    rw [Nat.ofDigitChars_cons]
    exact Nat.le_trans (by omega) (ih _)

/-- Digits count towards the value of what is read after them. -/
theorem readDigits_append {limit : Nat} {cs : List Char} {v : Nat} (hd : ∀ c ∈ cs, c.isDigit = true)
    (hv : Nat.ofDigitChars 10 cs v ≤ limit) (ds : List Char) :
    readDigits limit v (cs ++ ds) = readDigits limit (Nat.ofDigitChars 10 cs v) ds := by
  induction cs generalizing v with
  | nil => rfl
  | cons c cs ih =>
    obtain ⟨hc, hcs⟩ := List.forall_mem_cons.mp hd
    rw [Nat.ofDigitChars_cons] at hv ⊢
    have hle : 10 * v + digitValue c ≤ limit := Nat.le_trans (le_ofDigitChars cs _) hv
    rw [List.cons_append, readDigits, if_pos hc, if_pos hle]
    exact ih hcs hv

/-- Digits are read as their value as long as that is within the limit. -/
theorem readDigits_eq {limit : Nat} {cs : List Char} {v : Nat} (hd : ∀ c ∈ cs, c.isDigit = true)
    (hv : Nat.ofDigitChars 10 cs v ≤ limit) :
    readDigits limit v cs = .ok (Nat.ofDigitChars 10 cs v) := by
  have hread := readDigits_append hd hv []
  rwa [List.append_nil] at hread

theorem readNat_decimal {limit n : Nat} (h : n ≤ limit) : readNat limit (decimal n) = .ok n := by
  have hvalue : Nat.ofDigitChars 10 (decimal n) 0 = n :=
    Nat.ofDigitChars_toDigits (by decide) (by decide)
  have hread : readDigits limit 0 (decimal n) = .ok n := by
    rw [readDigits_eq (fun c => isDigit_of_mem_decimal) (by rwa [hvalue]), hvalue]
  have hplus : '+' ∉ decimal n := not_mem_decimal (by decide)
  cases hcs : decimal n with
  | nil => exact absurd hcs Nat.toDigits_ne_nil
  | cons c cs =>
    rw [hcs] at hread hplus
    -- no sign is taken off, since the first character is a digit
    have hc : c ≠ '+' := fun h => hplus (h ▸ List.mem_cons_self)
    rw [readNat]
    · exact hread
    all_goals simp [hc]

theorem readLine_decimal (line : UInt32) : readLine (decimal line.toNat) = .ok line := by
  have hle : line.toNat ≤ maxLine := Nat.le_of_lt_succ line.toNat_lt
  rw [readLine, readNat_decimal hle]
  exact congrArg Except.ok UInt32.ofNat_toNat

theorem toNat_of_isDigit {c : Char} (h : c.isDigit = true) : 48 ≤ c.toNat ∧ c.toNat ≤ 57 := by
  simpa [Char.isDigit, UInt32.le_iff_toNat_le] using h

theorem not_isBlank_of_isDigit {c : Char} (h : c.isDigit = true) : isBlank c = false := by
  have hrange := toNat_of_isDigit h
  simp only [isBlank, Bool.or_eq_false_iff, Bool.and_eq_false_iff, decide_eq_false_iff_not,
    beq_eq_false_iff_ne]
  omega

end Text

/-! ## The ends of lines -/

namespace Text

variable {p : Char → Bool} {cs ds : List Char}

theorem dropEndWhile_eq_self (h : ∀ c ∈ cs.getLast?, p c = false) : dropEndWhile p cs = cs := by
  refine List.rdropWhile_eq_self_iff.mpr fun hne => ?_
  rw [h _ (List.getLast?_eq_some_getLast hne)]
  exact Bool.false_ne_true

theorem dropEndWhile_append (h : ∀ c ∈ ds, p c = true) :
    dropEndWhile p (cs ++ ds) = dropEndWhile p cs := by
  rw [dropEndWhile, dropEndWhile, List.reverse_append, List.dropWhile_append_of_pos]
  intro c hc
  exact h c (List.mem_reverse.mp hc)

theorem dropEndWhile_prefix (p : Char → Bool) (cs : List Char) : dropEndWhile p cs <+: cs :=
  List.rdropWhile_prefix p cs

/-- The more characters are dropped, the less is left. -/
theorem dropEndWhile_prefix_of_imp {q : Char → Bool} (h : ∀ c, p c = true → q c = true)
    (cs : List Char) : dropEndWhile q cs <+: dropEndWhile p cs := by
  have hsplit : dropEndWhile p cs ++ cs.rtakeWhile p = cs :=
    List.rdropWhile_append_rtakeWhile
  have hq : dropEndWhile q cs = dropEndWhile q (dropEndWhile p cs) := by
    conv_lhs => rw [← hsplit]
    exact dropEndWhile_append fun c hc => h c (List.mem_rtakeWhile_imp hc)
  rw [hq]
  exact dropEndWhile_prefix q _

theorem not_of_getLast?_dropEndWhile {c : Char} (h : c ∈ (dropEndWhile p cs).getLast?) :
    p c = false := by
  have hne : dropEndWhile p cs ≠ [] := by
    intro hnil
    rw [hnil] at h
    cases h
  rw [List.getLast?_eq_some_getLast hne] at h
  cases h
  exact eq_false_of_ne_true (List.rdropWhile_last_not p cs hne)

/-- A number has no white space around it. -/
theorem trim_decimal (n : Nat) : trim (decimal n) = decimal n := by
  have hblank : ∀ c ∈ decimal n, isBlank c = false :=
    fun c hc => not_isBlank_of_isDigit (isDigit_of_mem_decimal hc)
  have hstart : (decimal n).dropWhile isBlank = decimal n := by
    cases hcs : decimal n with
    | nil => rfl
    | cons c cs =>
      have hc : isBlank c = false := hblank c (hcs ▸ List.mem_cons_self)
      rw [List.dropWhile_cons, hc]
      rfl
  rw [trim, hstart]
  exact dropEndWhile_eq_self fun c hc => hblank c (List.mem_of_getLast? hc)

end Text

/-! ## Fields -/

namespace Record

variable {d : Char} {field text rest : List Char}

theorem getLast?_append_cons (h : field ≠ []) :
    (text ++ d :: field).getLast? = field.getLast? := by
  rw [List.append_cons, List.getLast?_append, List.getLast?_eq_some_getLast h, Option.some_or]

theorem bne_of_mem (h : d ∉ field) (c : Char) (hc : c ∈ field) : (c != d) = true :=
  bne_iff_ne.mpr fun heq => h (heq ▸ hc)

theorem dropWhile_bne (h : d ∉ field) :
    (field ++ d :: rest).dropWhile (· != d) = d :: rest := by
  rw [List.dropWhile_append_of_pos (bne_of_mem h)]
  simp

theorem takeWhile_bne (h : d ∉ field) : (field ++ d :: rest).takeWhile (· != d) = field := by
  rw [List.takeWhile_append_of_pos (bne_of_mem h)]
  simp

/-- Without the delimiter the text is one field. -/
theorem splitFirst_of_nil {n : Nat} (h : text.dropWhile (· != d) = []) : splitFirst d (n + 1) text = [text] := by
  rw [splitFirst, h]

/-- The first field ends in front of the delimiter. -/
theorem splitFirst_of_cons {n : Nat} {c : Char} (h : text.dropWhile (· != d) = c :: rest) :
    splitFirst d (n + 1) text = text.takeWhile (· != d) :: splitFirst d n rest := by
  rw [splitFirst, h]

theorem splitFirst_append (n : Nat) (h : d ∉ field) :
    splitFirst d (n + 1) (field ++ d :: rest) = field :: splitFirst d n rest := by
  rw [splitFirst_of_cons (dropWhile_bne h), takeWhile_bne h]

theorem splitFirst_of_not_mem {n : Nat} (h : d ∉ text) : splitFirst d n text = [text] := by
  cases n with
  | zero => rfl
  | succ n => exact splitFirst_of_nil (List.dropWhile_eq_nil_iff.mpr (bne_of_mem h))

theorem length_splitFirst_le (d : Char) (n : Nat) (text : List Char) :
    (splitFirst d n text).length ≤ n + 1 := by
  induction n generalizing text with
  | zero => exact Nat.le_refl 1
  | succ n ih =>
    cases hrest : text.dropWhile (· != d) with
    | nil =>
      rw [splitFirst_of_nil hrest]
      exact Nat.le_add_left 1 _
    | cons c rest =>
      rw [splitFirst_of_cons hrest]
      exact Nat.succ_le_succ (ih rest)

theorem splitFirst_ne_nil (n : Nat) (text : List Char) : splitFirst d n text ≠ [] := by
  cases n with
  | zero => exact List.cons_ne_nil _ _
  | succ n =>
    cases hrest : text.dropWhile (· != d) with
    | nil =>
      rw [splitFirst_of_nil hrest]
      exact List.cons_ne_nil _ _
    | cons c rest =>
      rw [splitFirst_of_cons hrest]
      exact List.cons_ne_nil _ _

/-- The last field is what is left of the text. -/
theorem suffix_of_getLast?_splitFirst {n : Nat}
    (h : (splitFirst d n text).getLast? = some field) : field <:+ text := by
  induction n generalizing text with
  | zero =>
    cases h
    exact List.suffix_refl text
  | succ n ih =>
    cases hrest : text.dropWhile (· != d) with
    | nil =>
      rw [splitFirst_of_nil hrest] at h
      cases h
      exact List.suffix_refl text
    | cons c rest =>
      rw [splitFirst_of_cons hrest] at h
      obtain ⟨x, xs, hx⟩ := List.exists_cons_of_ne_nil (splitFirst_ne_nil n rest)
      rw [hx, List.getLast?_cons_cons, ← hx] at h
      exact (ih h).trans ((List.suffix_cons c rest).trans (hrest ▸ List.dropWhile_suffix _))

end Record

/-! ## Records -/

namespace Record

variable {r : Record} {line : List Char}

/-- A name that can be written without being escaped: it is there, and its end is seen in a line. -/
structure PlainName (name : List Char) : Prop where
  ne_nil : name ≠ []
  newline_not_mem : '\n' ∉ name
  return_not_last : name.getLast? ≠ some '\r'

theorem PlainName.not_isLineEnd {name : List Char} (h : PlainName name) {c : Char}
    (hc : c ∈ name.getLast?) : isLineEnd c = false := by
  rw [isLineEnd, Bool.or_eq_false_iff, beq_eq_false_iff_ne, beq_eq_false_iff_ne]
  refine ⟨?_, ?_⟩
  · rintro rfl
    exact h.return_not_last hc
  · rintro rfl
    exact h.newline_not_mem (List.mem_of_getLast? hc)

/-- The end of a line without line ends is a plain name. -/
theorem plainName_of_suffix {name body : List Char} (hne : name ≠ []) (h : name <:+ body)
    (hbody : '\n' ∉ body) (hlast : ∀ c ∈ body.getLast?, isLineEnd c = false) : PlainName name := by
  refine ⟨hne, fun hmem => hbody (h.subset hmem), fun hreturn => ?_⟩
  obtain ⟨start, rfl⟩ := h
  have hc : '\r' ∈ (start ++ name).getLast? := by
    rw [List.getLast?_append, hreturn]
    rfl
  exact Bool.noConfusion (hlast _ hc)

/-- A record that its own line gives back. -/
structure Writable (r : Record) : Prop where
  ordered : r.startLine ≤ r.endLine
  plain : ∀ name ∈ r.name, PlainName name

theorem ofLabel?_label (k : Kind) : Kind.ofLabel? k.label.toList = some k := by
  cases k <;> decide

theorem ofLabel?_eq_none {text : List Char} (h : ∀ k : Kind, text ≠ k.label.toList) :
    Kind.ofLabel? text = none := by
  rw [Kind.ofLabel?, List.find?_eq_none]
  intro k _
  simpa using (h k).symm

theorem comma_not_mem_label (k : Kind) : ',' ∉ k.label.toList := by
  cases k <;> decide

theorem Writable.getLast?_delimited (h : r.Writable) {c : Char}
    (hc : c ∈ (r.delimited ',').getLast?) : isLineEnd c = false := by
  rw [delimited] at hc
  cases hname : r.name with
  | none =>
    rw [nameOrEmpty, hname, Option.getD_none, List.getLast?_concat] at hc
    cases hc
    rfl
  | some name =>
    have hplain := h.plain name hname
    rw [nameOrEmpty, hname, Option.getD_some, getLast?_append_cons hplain.ne_nil] at hc
    exact hplain.not_isLineEnd hc

theorem Writable.nameOfFields (h : r.Writable) : nameOfFields [r.nameOrEmpty] = r.name := by
  cases hname : r.name with
  | none =>
    rw [nameOrEmpty, hname]
    rfl
  | some name =>
    obtain ⟨x, xs, hx⟩ := List.exists_cons_of_ne_nil (h.plain name hname).ne_nil
    rw [nameOrEmpty, hname, hx]
    rfl

/-- A writable record is read back from its line. -/
theorem ofLine_delimited (h : r.Writable) : ofLine (r.delimited ',' ++ ['\n']) = .ok r := by
  have hcomma : ∀ n, ',' ∉ Text.decimal n := fun n => Text.not_mem_decimal (by decide)
  have hbody : Text.dropEndWhile isLineEnd (r.delimited ',' ++ ['\n']) = r.delimited ',' := by
    rw [Text.dropEndWhile_append (List.forall_mem_singleton.mpr rfl),
      Text.dropEndWhile_eq_self fun c => h.getLast?_delimited]
  have hfields : splitFirst ',' 3 (r.delimited ',')
      = [r.kind.label.toList, Text.decimal r.startLine.toNat, Text.decimal r.endLine.toNat,
        r.nameOrEmpty] := by
    simp only [delimited, List.append_assoc, List.cons_append]
    rw [splitFirst_append 2 (comma_not_mem_label r.kind), splitFirst_append 1 (hcomma _),
      splitFirst_append 0 (hcomma _), splitFirst]
  rw [ofLine, hbody, hfields, ofFields]
  simp only [ofLabel?_label, Text.trim_decimal, Text.readLine_decimal,
    if_neg (UInt32.not_lt.mpr h.ordered), h.nameOfFields]

/-- What is known of the fields that a record was made of. -/
theorem of_ofFields {fields : List (List Char)} (h : ofFields fields = .ok r) :
    r.startLine ≤ r.endLine ∧ ∃ a b c rest, fields = a :: b :: c :: rest
      ∧ r.name = nameOfFields rest := by
  unfold ofFields at h
  split at h
  · next kindText startText endText rest =>
    repeat' split at h
    all_goals cases h
    next hle => exact ⟨UInt32.not_lt.mp hle, _, _, _, _, rfl, rfl⟩
  · cases h

theorem of_nameOfFields {fields : List (List Char)} {name : List Char}
    (h : Record.nameOfFields fields = some name) : name ≠ [] ∧ ∃ rest, fields = name :: rest := by
  match fields with
  | [] => cases h
  | [] :: _ => cases h
  | (c :: cs) :: rest =>
    cases h
    exact ⟨List.cons_ne_nil c cs, rest, rfl⟩

/-- The name of a line is what stands after its third comma. -/
theorem suffix_of_nameOfFields {a b c : List Char} {rest : List (List Char)} {name body : List Char}
    (hfields : splitFirst ',' 3 body = a :: b :: c :: rest)
    (h : Record.nameOfFields rest = some name) : name ≠ [] ∧ name <:+ body := by
  obtain ⟨hne, others, rfl⟩ := of_nameOfFields h
  refine ⟨hne, ?_⟩
  have hlength := length_splitFirst_le ',' 3 body
  rw [hfields] at hlength
  have hothers : others = [] := by
    refine List.eq_nil_of_length_eq_zero ?_
    simp only [List.length_cons] at hlength
    omega
  subst hothers
  refine suffix_of_getLast?_splitFirst (d := ',') (n := 3) ?_
  rw [hfields]
  rfl

/-- What is read from a line whose newlines all stand at its end is writable. -/
theorem writable_of_ofLine (h : ofLine line = .ok r)
    (hline : '\n' ∉ Text.dropEndWhile (· == '\n') line) : r.Writable := by
  obtain ⟨hle, a, b, c, rest, hfields, hname⟩ := of_ofFields h
  refine ⟨hle, fun name hmem => ?_⟩
  rw [hname] at hmem
  obtain ⟨hne, hsuffix⟩ := suffix_of_nameOfFields hfields hmem
  have hbody : '\n' ∉ Text.dropEndWhile isLineEnd line := by
    intro hnewline
    have himp : ∀ c : Char, (c == '\n') = true → isLineEnd c = true := by
      intro c hc
      rw [isLineEnd, hc, Bool.or_true]
    exact hline ((Text.dropEndWhile_prefix_of_imp himp line).subset hnewline)
  exact plainName_of_suffix hne hsuffix hbody fun c => Text.not_of_getLast?_dropEndWhile

end Record

end SpanIndex
