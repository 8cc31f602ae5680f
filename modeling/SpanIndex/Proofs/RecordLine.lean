import SpanIndex.Proofs.Record

/-!
# Which lines are records

Reading a line goes through five checks: there are three fields, the first is the label of a kind, the next two
are numbers, and the first number is not the larger one. The fields themselves are told by where the commas
stand (`Record.Fields.Written`), and a number by its digits (`Text.Numeral`). A line is read as a record just if
its fields give one (`Gives`), and otherwise the first check that fails gives the error (`Fails`).
-/

namespace SpanIndex

/-! ## The ends of texts -/

namespace Text

variable {p : Char → Bool} {cs ds text core : List Char}

theorem dropEndWhile_eq_iff : dropEndWhile p cs = ds
    ↔ (∃ tail, cs = ds ++ tail ∧ ∀ c ∈ tail, p c = true) ∧ ∀ c ∈ ds.getLast?, p c = false := by
  constructor
  · rintro rfl
    have hsplit : dropEndWhile p cs ++ cs.rtakeWhile p = cs := List.rdropWhile_append_rtakeWhile
    exact ⟨⟨cs.rtakeWhile p, hsplit.symm, fun c => List.mem_rtakeWhile_imp⟩,
      fun c => not_of_getLast?_dropEndWhile⟩
  · rintro ⟨⟨tail, rfl, htail⟩, hlast⟩
    rw [dropEndWhile_append htail, dropEndWhile_eq_self hlast]

/-- `core` is the text without the white space around it. -/
structure Trims (text core : List Char) : Prop where
  text_eq : ∃ before after, text = before ++ core ++ after
    ∧ (∀ c ∈ before, isBlank c = true) ∧ ∀ c ∈ after, isBlank c = true
  first : ∀ c ∈ core.head?, isBlank c = false
  last : ∀ c ∈ core.getLast?, isBlank c = false

theorem trims_trim (text : List Char) : Trims text (trim text) := by
  have hend : dropEndWhile isBlank (text.dropWhile isBlank) = trim text := rfl
  obtain ⟨⟨after, hafter, hblank⟩, hlast⟩ := dropEndWhile_eq_iff.mp hend
  refine ⟨⟨text.takeWhile isBlank, after, ?_, fun c => List.mem_takeWhile_imp, hblank⟩, ?_, hlast⟩
  · rw [List.append_assoc, ← hafter, List.takeWhile_append_dropWhile]
  · intro c hc
    have hhead : (text.dropWhile isBlank).head? = some c := by
      rw [hafter, List.head?_append, hc]
      rfl
    have hnot := List.head?_dropWhile_not isBlank text
    rw [hhead] at hnot
    exact hnot

theorem Trims.trim_eq (h : Trims text core) : trim text = core := by
  obtain ⟨before, after, rfl, hbefore, hafter⟩ := h.text_eq
  have hdrop : (before ++ core ++ after).dropWhile isBlank = (core ++ after).dropWhile isBlank := by
    rw [List.append_assoc, List.dropWhile_append_of_pos hbefore]
  rw [trim, hdrop]
  cases core with
  | nil =>
    -- all of the text is white space
    rw [List.nil_append, List.dropWhile_eq_nil_iff.mpr hafter]
    rfl
  | cons c cs =>
    rw [List.cons_append, List.dropWhile_cons_of_neg (by simp [h.first c rfl]), ← List.cons_append,
      dropEndWhile_append hafter, dropEndWhile_eq_self h.last]

end Text

/-! ## Numbers -/

namespace Text

variable {limit v n : Nat} {cs ds core text : List Char} {e : NumberError}

/-- A number as a user writes it: digits, with a plus sign before them or none, and white space around them. -/
structure Numeral (text : List Char) (value : Nat) : Prop where
  text_eq : ∃ sign digits, Trims text (sign ++ digits) ∧ (sign = [] ∨ sign = ['+'])
    ∧ digits ≠ [] ∧ (∀ c ∈ digits, c.isDigit = true) ∧ Nat.ofDigitChars 10 digits 0 = value
  le_max : value ≤ 4294967295

/-- What is left of a number without its plus sign. -/
def unsigned : List Char → List Char
  | '+' :: cs => cs
  | cs => cs

/-- Why digits that come after those of `v` are not those of a number of at most `limit`. -/
inductive Breaks (limit v : Nat) : List Char → NumberError → Prop
  | invalidDigit {digits rest : List Char} {c : Char} (digits_isDigit : ∀ d ∈ digits, d.isDigit = true)
      (le_limit : Nat.ofDigitChars 10 digits v ≤ limit) (not_isDigit : c.isDigit = false) :
      Breaks limit v (digits ++ c :: rest) .invalidDigit
  | tooLarge {digits rest : List Char} (digits_isDigit : ∀ d ∈ digits, d.isDigit = true)
      (limit_lt : limit < Nat.ofDigitChars 10 digits v) : Breaks limit v (digits ++ rest) .tooLarge

/-- Why a text is no number as a user writes it. -/
inductive Misread (text : List Char) : NumberError → Prop
  | empty (trims : Trims text []) : Misread text .empty
  | noDigits (trims : Trims text ['+']) : Misread text .invalidDigit
  | breaks {core : List Char} {e : NumberError} (trims : Trims text core)
      (breaks : Breaks 4294967295 0 (unsigned core) e) : Misread text e

theorem Breaks.cons {c : Char} (hc : c.isDigit = true) (h : Breaks limit (10 * v + digitValue c) cs e) :
    Breaks limit v (c :: cs) e := by
  cases h with
  | invalidDigit hdigits hle hnot =>
    rw [← List.cons_append]
    exact .invalidDigit (List.forall_mem_cons.mpr ⟨hc, hdigits⟩) hle hnot
  | tooLarge hdigits hlt =>
    rw [← List.cons_append]
    exact .tooLarge (List.forall_mem_cons.mpr ⟨hc, hdigits⟩) hlt

theorem digits_or_breaks (cs : List Char) (hv : v ≤ limit) :
    ((∀ c ∈ cs, c.isDigit = true) ∧ Nat.ofDigitChars 10 cs v ≤ limit) ∨ ∃ e, Breaks limit v cs e := by
  induction cs generalizing v with
  | nil => exact Or.inl ⟨List.forall_mem_nil _, hv⟩
  | cons c cs ih =>
    by_cases hc : c.isDigit = true
    · by_cases hle : 10 * v + digitValue c ≤ limit
      · rcases ih hle with ⟨hcs, hvalue⟩ | ⟨e, he⟩
        · exact Or.inl ⟨List.forall_mem_cons.mpr ⟨hc, hcs⟩, hvalue⟩
        · exact Or.inr ⟨e, he.cons hc⟩
      · have hlarge : Breaks limit v ([c] ++ cs) .tooLarge :=
          .tooLarge (List.forall_mem_singleton.mpr hc) (Nat.lt_of_not_le hle)
        exact Or.inr ⟨_, hlarge⟩
    · have hinvalid : Breaks limit v ([] ++ c :: cs) .invalidDigit :=
        .invalidDigit (List.forall_mem_nil _) hv (eq_false_of_ne_true hc)
      exact Or.inr ⟨_, hinvalid⟩

theorem Breaks.readDigits_eq (hv : v ≤ limit) (h : Breaks limit v cs e) :
    readDigits limit v cs = .error e := by
  cases h with
  | invalidDigit hdigits hle hnot =>
    rw [readDigits_append hdigits hle, readDigits, hnot]
    rfl
  | @tooLarge digits rest hdigits hlt =>
    -- reading may stop before the last of these digits, since the value only grows
    induction digits generalizing v with
    | nil => exact absurd hv (Nat.not_le.mpr hlt)
    | cons d digits ih =>
      obtain ⟨hd, hds⟩ := List.forall_mem_cons.mp hdigits
      rw [List.cons_append, readDigits, if_pos hd]
      by_cases hle : 10 * v + digitValue d ≤ limit
      · rw [if_pos hle]
        exact ih hle hds hlt
      · exact if_neg hle

theorem Breaks.ne_nil (hv : v ≤ limit) (h : Breaks limit v cs e) : cs ≠ [] := by
  rintro rfl
  cases h.readDigits_eq hv

theorem readNat_eq (hne : core ≠ []) (hsign : core ≠ ['+']) :
    readNat limit core = readDigits limit 0 (unsigned core) := by
  unfold readNat unsigned
  split <;> simp_all

theorem exists_sign (core : List Char) :
    ∃ sign, core = sign ++ unsigned core ∧ (sign = [] ∨ sign = ['+']) := by
  unfold unsigned
  split
  · exact ⟨['+'], rfl, Or.inr rfl⟩
  · exact ⟨[], rfl, Or.inl rfl⟩

theorem unsigned_append {sign : List Char} (hsign : sign = [] ∨ sign = ['+'])
    (hd : ∀ c ∈ ds, c.isDigit = true) : unsigned (sign ++ ds) = ds := by
  rcases hsign with rfl | rfl
  · cases ds with
    | nil => rfl
    | cons d ds =>
      have hplus : d ≠ '+' := by
        rintro rfl
        exact absurd (hd _ List.mem_cons_self) (by decide)
      unfold unsigned
      split <;> simp_all
  · rfl

/-- A text is a number or it is not, and then there is a reason. -/
theorem numeral_or_misread (text : List Char) :
    (∃ value : UInt32, Numeral text value.toNat) ∨ ∃ e, Misread text e := by
  have htrims := trims_trim text
  obtain ⟨sign, hcore, hsign⟩ := exists_sign (trim text)
  by_cases hnil : unsigned (trim text) = []
  · -- what is left is the sign alone
    rw [hnil, List.append_nil] at hcore
    rw [hcore] at htrims
    rcases hsign with rfl | rfl
    · exact Or.inr ⟨_, .empty htrims⟩
    · exact Or.inr ⟨_, .noDigits htrims⟩
  · rcases digits_or_breaks (unsigned (trim text)) (Nat.zero_le maxLine) with ⟨hdigits, hle⟩ | ⟨e, he⟩
    · have hvalue : (UInt32.ofNat (Nat.ofDigitChars 10 (unsigned (trim text)) 0)).toNat
          = Nat.ofDigitChars 10 (unsigned (trim text)) 0 :=
        UInt32.toNat_ofNat_of_lt' (Nat.lt_succ_of_le hle)
      exact Or.inl ⟨_, ⟨sign, _, hcore ▸ htrims, hsign, hnil, hdigits, hvalue.symm⟩,
        Nat.le_trans (Nat.le_of_eq hvalue) hle⟩
    · exact Or.inr ⟨e, .breaks htrims he⟩

theorem Numeral.readLine_eq {value : UInt32} (h : Numeral text value.toNat) :
    readLine (trim text) = .ok value := by
  obtain ⟨sign, digits, htrims, hsign, hne, hdigits, hvalue⟩ := h.text_eq
  have hunsigned := unsigned_append hsign hdigits
  have hnil : sign ++ digits ≠ [] := by simp [hne]
  have hplus : sign ++ digits ≠ ['+'] := by
    intro heq
    rw [heq] at hunsigned
    exact hne hunsigned.symm
  rw [readLine, htrims.trim_eq, readNat_eq hnil hplus, hunsigned, readDigits_eq hdigits, hvalue]
  · exact congrArg Except.ok UInt32.ofNat_toNat
  · rw [hvalue]
    exact h.le_max

theorem Misread.readLine_eq (h : Misread text e) : readLine (trim text) = .error e := by
  cases h with
  | empty htrims =>
    rw [htrims.trim_eq]
    rfl
  | noDigits htrims =>
    rw [htrims.trim_eq]
    rfl
  | breaks htrims hbreaks =>
    have hne := hbreaks.ne_nil (Nat.zero_le _)
    rw [htrims.trim_eq, readLine, readNat_eq, maxLine, hbreaks.readDigits_eq (Nat.zero_le _)]
    · rfl
    · rintro rfl
      exact hne rfl
    · rintro rfl
      exact hne rfl

end Text

/-! ## Fields -/

namespace Record

variable {r : Record} {e : Error} {line body : List Char}

/-- `body` is the line without the line ends behind it. -/
structure Strips (line body : List Char) : Prop where
  line_eq : ∃ ends, line = body ++ ends ∧ ∀ c ∈ ends, c = '\r' ∨ c = '\n'
  last : ∀ c ∈ body.getLast?, c ≠ '\r' ∧ c ≠ '\n'

theorem dropEndWhile_isLineEnd_eq_iff : Text.dropEndWhile isLineEnd line = body ↔ Strips line body := by
  have hend : ∀ c : Char, isLineEnd c = true ↔ c = '\r' ∨ c = '\n' := by simp [isLineEnd]
  have hnot : ∀ c : Char, isLineEnd c = false ↔ c ≠ '\r' ∧ c ≠ '\n' := by simp [isLineEnd]
  simp only [Text.dropEndWhile_eq_iff, hend, hnot]
  constructor
  · rintro ⟨hline, hlast⟩
    exact ⟨hline, hlast⟩
  · intro h
    exact ⟨h.line_eq, h.last⟩

/-- The texts between the first three commas of a line, and what comes behind a third one. -/
structure Fields where
  kind : List Char
  startLine : List Char
  endLine : List Char
  name : Option (List Char)

namespace Fields

/-- What is written after the second number. -/
def rest : Option (List Char) → List Char
  | none => []
  | some name => ',' :: name

/-- The line has these fields. -/
structure Written (f : Fields) (line : List Char) : Prop where
  strips : Strips line (f.kind ++ ',' :: (f.startLine ++ ',' :: (f.endLine ++ rest f.name)))
  kind : ',' ∉ f.kind
  startLine : ',' ∉ f.startLine
  endLine : ',' ∉ f.endLine

/-- The fields are those of the record: its label, its lines, and its name if that is not empty. -/
structure Gives (f : Fields) (r : Record) : Prop where
  kind : f.kind = r.kind.label.toList
  startLine : Text.Numeral f.startLine r.startLine.toNat
  endLine : Text.Numeral f.endLine r.endLine.toNat
  ordered : r.startLine ≤ r.endLine
  name : r.name = f.name.filter (· ≠ [])

/-- The first check that the fields do not pass gives the error. -/
inductive Fails (f : Fields) : Error → Prop
  | unknownKind (kind : ∀ k : Kind, f.kind ≠ k.label.toList) : Fails f (.unknownKind f.kind)
  | startLine {k : Kind} {e : Text.NumberError} (kind : f.kind = k.label.toList)
      (startLine : Text.Misread f.startLine e) : Fails f (.startLine e)
  | endLine {k : Kind} {s : UInt32} {e : Text.NumberError} (kind : f.kind = k.label.toList)
      (startLine : Text.Numeral f.startLine s.toNat) (endLine : Text.Misread f.endLine e) :
      Fails f (.endLine e)
  | reversed {k : Kind} {s e : UInt32} (kind : f.kind = k.label.toList)
      (startLine : Text.Numeral f.startLine s.toNat) (endLine : Text.Numeral f.endLine e.toNat)
      (later : e < s) : Fails f (.reversed s e)

variable {f : Fields}

theorem Written.ofLine_eq (h : f.Written line) :
    ofLine line = ofFields (f.kind :: f.startLine :: f.endLine :: f.name.toList) := by
  rw [ofLine, dropEndWhile_isLineEnd_eq_iff.mpr h.strips, splitFirst_append 2 h.kind,
    splitFirst_append 1 h.startLine]
  cases hname : f.name with
  | none => rw [rest, List.append_nil, splitFirst_of_not_mem h.endLine, Option.toList_none]
  | some name => rw [rest, splitFirst_append 0 h.endLine, splitFirst, Option.toList_some]

theorem Gives.ofFields_eq (h : f.Gives r) :
    ofFields (f.kind :: f.startLine :: f.endLine :: f.name.toList) = .ok r := by
  have hname : nameOfFields f.name.toList = r.name := by
    rw [h.name]
    cases f.name with
    | none => rfl
    | some name => cases name <;> rfl
  rw [ofFields, h.kind]
  simp only [ofLabel?_label, h.startLine.readLine_eq, h.endLine.readLine_eq,
    if_neg (UInt32.not_lt.mpr h.ordered), hname]

theorem Fails.ofFields_eq (h : f.Fails e) :
    ofFields (f.kind :: f.startLine :: f.endLine :: f.name.toList) = .error e := by
  rw [ofFields]
  cases h with
  | unknownKind hkind => rw [ofLabel?_eq_none hkind]
  | startLine hkind hstart => simp only [hkind, ofLabel?_label, hstart.readLine_eq]
  | endLine hkind hstart hend => simp only [hkind, ofLabel?_label, hstart.readLine_eq, hend.readLine_eq]
  | reversed hkind hstart hend hlater =>
    simp only [hkind, ofLabel?_label, hstart.readLine_eq, hend.readLine_eq, if_pos hlater]

/-- Fields pass all checks, or there is a first one that they do not pass. -/
theorem gives_or_fails (f : Fields) : (∃ r, f.Gives r) ∨ ∃ e, f.Fails e := by
  by_cases hkind : ∃ k : Kind, f.kind = k.label.toList
  · obtain ⟨k, hk⟩ := hkind
    rcases Text.numeral_or_misread f.startLine with ⟨s, hs⟩ | ⟨e, he⟩
    · rcases Text.numeral_or_misread f.endLine with ⟨t, ht⟩ | ⟨e, he⟩
      · by_cases hle : s ≤ t
        · exact Or.inl ⟨⟨k, s, t, _⟩, hk, hs, ht, hle, rfl⟩
        · exact Or.inr ⟨_, .reversed hk hs ht (UInt32.not_le.mp hle)⟩
      · exact Or.inr ⟨_, .endLine hk hs he⟩
    · exact Or.inr ⟨_, .startLine hk he⟩
  · exact Or.inr ⟨_, .unknownKind (not_exists.mp hkind)⟩

end Fields

/-- A line with two commas has fields. -/
theorem exists_written (h : Strips line body) : (∃ f : Fields, f.Written line) ∨ body.count ',' < 2 := by
  by_cases hfirst : ',' ∈ body
  · obtain ⟨kind, more, rfl, hkind⟩ := List.eq_append_cons_of_mem hfirst
    by_cases hsecond : ',' ∈ more
    · obtain ⟨startLine, more, rfl, hstart⟩ := List.eq_append_cons_of_mem hsecond
      by_cases hthird : ',' ∈ more
      · obtain ⟨endLine, name, rfl, hend⟩ := List.eq_append_cons_of_mem hthird
        exact Or.inl ⟨⟨kind, startLine, endLine, some name⟩, h, hkind, hstart, hend⟩
      · refine Or.inl ⟨⟨kind, startLine, more, none⟩, ?_, hkind, hstart, hthird⟩
        simpa [Fields.rest] using h
    · exact Or.inr (by simp [List.count_eq_zero.mpr hkind, List.count_eq_zero.mpr hsecond])
  · exact Or.inr (by simp [List.count_eq_zero.mpr hfirst])

theorem ofLine_of_count_lt (h : Strips line body) (hcount : body.count ',' < 2) :
    ofLine line = .error .tooFewFields := by
  rw [ofLine, dropEndWhile_isLineEnd_eq_iff.mpr h]
  by_cases hfirst : ',' ∈ body
  · obtain ⟨kind, more, rfl, hkind⟩ := List.eq_append_cons_of_mem hfirst
    have hmore : ',' ∉ more := by
      intro hmem
      have hpos := List.count_pos_iff.mpr hmem
      simp [List.count_eq_zero.mpr hkind] at hcount
      omega
    rw [splitFirst_append 2 hkind, splitFirst_of_not_mem hmore]
    rfl
  · rw [splitFirst_of_not_mem hfirst]
    rfl

/-! ## Lines -/

/-- The fields of the line are those of the record. -/
def Spelled (r : Record) (line : List Char) : Prop := ∃ f : Fields, f.Written line ∧ f.Gives r

/-- The first check that the line does not pass gives the error. -/
inductive Refused (line : List Char) : Error → Prop
  | tooFewFields {body : List Char} (strips : Strips line body) (count : body.count ',' < 2) :
      Refused line .tooFewFields
  | fields {f : Fields} {e : Error} (written : f.Written line) (fails : f.Fails e) : Refused line e

theorem Spelled.ofLine_eq (h : r.Spelled line) : ofLine line = .ok r := by
  obtain ⟨f, hwritten, hgives⟩ := h
  rw [hwritten.ofLine_eq, hgives.ofFields_eq]

theorem Refused.ofLine_eq (h : Refused line e) : ofLine line = .error e := by
  cases h with
  | tooFewFields hstrips hcount => exact ofLine_of_count_lt hstrips hcount
  | fields hwritten hfails => rw [hwritten.ofLine_eq, hfails.ofFields_eq]

theorem spelled_or_refused (line : List Char) :
    (∃ r : Record, r.Spelled line) ∨ ∃ e, Refused line e := by
  have hstrips := dropEndWhile_isLineEnd_eq_iff.mp (Eq.refl (Text.dropEndWhile isLineEnd line))
  rcases exists_written hstrips with ⟨f, hwritten⟩ | hcount
  · rcases f.gives_or_fails with ⟨r, hgives⟩ | ⟨e, hfails⟩
    · exact Or.inl ⟨r, f, hwritten, hgives⟩
    · exact Or.inr ⟨e, .fields hwritten hfails⟩
  · exact Or.inr ⟨_, .tooFewFields hstrips hcount⟩

/-- A line is read as a record just if its fields are those of the record. Otherwise the line is given back as it
was, with the first check that it does not pass. -/
theorem read_language (line : List Char) :
    (∀ r, read line = .ok r ↔ r.Spelled line)
      ∧ ∀ e, read line = .error e ↔ e.line = line ∧ Refused line e.cause := by
  unfold read
  rcases spelled_or_refused line with ⟨r, hr⟩ | ⟨e, he⟩
  · rw [hr.ofLine_eq]
    refine ⟨fun r' => ⟨?_, fun h => ?_⟩, fun e => ⟨?_, ?_⟩⟩
    · rintro ⟨⟩
      exact hr
    · rw [Except.ok.inj (hr.ofLine_eq.symm.trans h.ofLine_eq)]
      rfl
    · rintro ⟨⟩
    · rintro ⟨-, he⟩
      cases hr.ofLine_eq.symm.trans he.ofLine_eq
  · rw [he.ofLine_eq]
    refine ⟨fun r => ⟨?_, fun h => ?_⟩, fun e' => ⟨?_, ?_⟩⟩
    · rintro ⟨⟩
    · cases he.ofLine_eq.symm.trans h.ofLine_eq
    · rintro ⟨⟩
      exact ⟨rfl, he⟩
    · rintro ⟨rfl, he'⟩
      rw [Except.error.inj (he.ofLine_eq.symm.trans he'.ofLine_eq)]
      rfl

end Record

end SpanIndex
