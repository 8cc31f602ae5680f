import SpanIndex.Proofs.Span

/-!
# Lines and fields of delimited texts

In the two formats with a delimiter nothing is escaped. A text is still cut into the fields it was written
from, since no field has a newline or a delimiter in it: the characters of a field are those of identifiers,
and in the name of a method there may be a dot.
-/

namespace SpanIndex

open Text (isIdentifier isIdentifierPart)

/-! ## Fields -/

/-- What stands between the fields of a record, in the formats that have such a character. -/
def Format.delimiter? : Format → Option Char
  | .csv => some ','
  | .tsv => some '\t'
  | .jsonl => none

/-- The fields of a record, in the order in which they are written. -/
def Record.fields (r : Record) : List (List Char) :=
  [r.kind.label.toList, Text.decimal r.startLine.toNat, Text.decimal r.endLine.toNat, r.nameOrEmpty]

/-- A character that stands in no field: none of an identifier, and no dot. -/
structure Text.IsOutside (c : Char) : Prop where
  not_part : isIdentifierPart c = false
  ne_dot : c ≠ '.'

namespace Text.IsOutside

variable {c : Char}

theorem newline : IsOutside '\n' := ⟨by decide, by decide⟩

theorem of_delimiter {f : Format} (h : f.delimiter? = some c) : IsOutside c := by
  cases f with
  | csv => cases h; exact ⟨by decide, by decide⟩
  | tsv => cases h; exact ⟨by decide, by decide⟩
  | jsonl => cases h

theorem not_mem_label (h : IsOutside c) (k : Kind) : c ∉ k.label.toList := by
  have hident : isIdentifier k.label.toList = true := by
    cases k <;> decide
  exact not_mem_of_isIdentifier hident h.not_part

theorem not_mem_decimal (h : IsOutside c) (n : Nat) : c ∉ decimal n := by
  have hpart := h.not_part
  rw [isIdentifierPart, Bool.or_eq_false_iff, Bool.or_eq_false_iff] at hpart
  exact Text.not_mem_decimal hpart.1.2

theorem not_mem_name (h : IsOutside c) {q : Bool} {k : Kind} {name : List Char}
    (hname : NameShape q k name) : c ∉ name := by
  cases hname with
  | single _ hname => exact not_mem_of_isIdentifier hname h.not_part
  | pair _ hreceiver hown =>
    simp [not_mem_of_isIdentifier hreceiver h.not_part, not_mem_of_isIdentifier hown h.not_part, h.ne_dot]

/-- If the name of a record is shaped well, then no field of the record has the character. -/
theorem not_mem_fields (h : IsOutside c) {q : Bool} {r : Record}
    (hname : ∀ name ∈ r.name, NameShape q r.kind name) : ∀ field ∈ r.fields, c ∉ field := by
  have hlast : c ∉ r.nameOrEmpty := by
    rw [Record.nameOrEmpty]
    cases hr : r.name with
    | none => exact List.not_mem_nil
    | some name => exact h.not_mem_name (hname name hr)
  simp [Record.fields, h.not_mem_label, h.not_mem_decimal, hlast]

end Text.IsOutside

namespace Record

variable {r : Record} {c d : Char}

theorem delimited_eq (d : Char) (r : Record) : r.delimited d = [d].intercalate r.fields := by
  simp [delimited, fields, List.intercalate_cons_cons]

/-- A line is cut at the delimiters into the fields of its record. -/
theorem splitOn_delimited (h : ∀ field ∈ r.fields, d ∉ field) : (r.delimited d).splitOn d = r.fields := by
  rw [delimited_eq]
  exact List.splitOn_intercalate d h (List.cons_ne_nil _ _)

/-- Between four fields there are three delimiters. -/
theorem count_delimited (h : ∀ field ∈ r.fields, d ∉ field) : (r.delimited d).count d = 3 := by
  simp only [fields, List.forall_mem_cons] at h
  obtain ⟨hlabel, hstart, hend, hname, -⟩ := h
  simp [delimited, List.count_eq_zero.mpr hlabel, List.count_eq_zero.mpr hstart,
    List.count_eq_zero.mpr hend, List.count_eq_zero.mpr hname]

theorem not_mem_delimited (h : ∀ field ∈ r.fields, c ∉ field) (hc : c ≠ d) : c ∉ r.delimited d := by
  simp only [fields, List.forall_mem_cons] at h
  obtain ⟨hlabel, hstart, hend, hname, -⟩ := h
  simp [delimited, hlabel, hstart, hend, hname, hc]

end Record

/-- A name has a dot only between two identifiers. -/
theorem NameShape.dots {q : Bool} {k : Kind} {name : List Char} (h : NameShape q k name) :
    if k = .method ∧ q = true then
      name.count '.' = 1 ∧ ∃ receiver own, name = receiver ++ '.' :: own
        ∧ isIdentifier receiver = true ∧ isIdentifier own = true
    else '.' ∉ name ∧ isIdentifier name = true := by
  have hdot : ∀ word, isIdentifier word = true → '.' ∉ word :=
    fun _ hword => Text.not_mem_of_isIdentifier hword (by decide)
  cases h with
  | single hk hname =>
    have hcond : ¬ (k = .method ∧ q = true) := by
      rintro ⟨hmethod, hq⟩
      rw [hk hmethod] at hq
      cases hq
    rw [if_neg hcond]
    exact ⟨hdot _ hname, hname⟩
  | pair hq hreceiver hown =>
    rw [if_pos ⟨rfl, hq⟩]
    refine ⟨?_, _, _, rfl, hreceiver, hown⟩
    rw [List.count_append, List.count_cons_self, List.count_eq_zero.mpr (hdot _ hreceiver),
      List.count_eq_zero.mpr (hdot _ hown)]

/-! ## Lines -/

namespace Format

theorem unlines_eq (lines : List (List Char)) : unlines lines = ['\n'].intercalate (lines ++ [[]]) := by
  induction lines with
  | nil => rfl
  | cons line lines ih =>
    rw [unlines] at ih ⊢
    rw [List.flatMap_cons, ih]
    -- there is always a line after this one, the empty one at the end
    cases lines with
    | nil => simp [List.intercalate_cons_cons]
    | cons next lines => simp [List.intercalate_cons_cons]

theorem splitOn_unlines {lines : List (List Char)} (h : ∀ line ∈ lines, '\n' ∉ line) :
    (unlines lines).splitOn '\n' = lines ++ [[]] := by
  rw [unlines_eq]
  refine List.splitOn_intercalate '\n' ?_ (by simp)
  rw [List.forall_mem_append]
  exact ⟨h, by simp⟩

theorem render_of_delimiter {f : Format} {d : Char} (h : f.delimiter? = some d) (i : Index) :
    f.render i = unlines (i.package :: i.declarations.map (Record.delimited d)) := by
  cases f with
  | csv => cases h; rfl
  | tsv => cases h; rfl
  | jsonl => cases h

end Format

/-! ## Files with an index -/

namespace Index

variable {o : Options} {source : List Char} {i : Index}

theorem nameShape_of_ofSource (h : ofSource o source = .ok i) :
    ∀ r ∈ i.declarations, ∀ name ∈ r.name, NameShape o.qualifyMethods r.kind name := by
  obtain ⟨hfit, -, -, hdeclarations⟩ := of_ofSource h
  rw [hdeclarations, classify, List.forall_mem_map]
  intro n hn name hname
  exact nameShape_of_describe hfit ((declarationNodes_sublist _).mem hn) hname

/-- The lines of a delimited text are the package and the fields of the records. The package and the names
are identifiers; only the name of a qualified method is two of them, with the only dot in between. -/
theorem ofSource_delimited (h : ofSource o source = .ok i) :
    (∀ (f : Format) (d : Char), f.delimiter? = some d → ∃ lines,
        (f.render i).splitOn '\n' = i.package :: (lines ++ [[]])
          ∧ (∀ line ∈ lines, line.count d = 3)
          ∧ lines.map (·.splitOn d) = i.declarations.map Record.fields)
      ∧ isIdentifier i.package = true
      ∧ ∀ r ∈ i.declarations, ∀ name ∈ r.name,
        if r.kind = .method ∧ o.qualifyMethods = true then
          name.count '.' = 1 ∧ ∃ receiver own, name = receiver ++ '.' :: own
            ∧ isIdentifier receiver = true ∧ isIdentifier own = true
        else '.' ∉ name ∧ isIdentifier name = true := by
  obtain ⟨hfit, -, hpackage, -⟩ := of_ofSource h
  have hident := isIdentifier_package hfit hpackage
  have hnames := nameShape_of_ofSource h
  refine ⟨?_, hident, ?_⟩
  · intro f d hd
    have hbreak : ∀ r ∈ i.declarations, '\n' ∉ r.delimited d := by
      intro r hr
      have hne : '\n' ≠ d := by
        rintro rfl
        cases f <;> cases hd
      exact Record.not_mem_delimited (Text.IsOutside.newline.not_mem_fields (hnames r hr)) hne
    have hfields : ∀ r ∈ i.declarations, ∀ field ∈ r.fields, d ∉ field :=
      fun r hr => (Text.IsOutside.of_delimiter hd).not_mem_fields (hnames r hr)
    refine ⟨i.declarations.map (Record.delimited d), ?_, ?_, ?_⟩
    · rw [Format.render_of_delimiter hd, Format.splitOn_unlines, List.cons_append]
      rw [List.forall_mem_cons, List.forall_mem_map]
      exact ⟨Text.not_mem_of_isIdentifier hident (by decide), hbreak⟩
    · rw [List.forall_mem_map]
      exact fun r hr => Record.count_delimited (hfields r hr)
    · rw [List.map_map]
      exact List.map_congr_left fun r hr => Record.splitOn_delimited (hfields r hr)
  · intro r hr name hname
    exact (hnames r hr name hname).dots

theorem ofSource_delimited_crowded :
    ofSource {} crowded = .ok crowdedIndex
      ∧ (∃ lines, (Format.tsv.render crowdedIndex).splitOn '\n' = ['p'] :: (lines ++ [[]])
        ∧ (∀ line ∈ lines, line.count '\t' = 3)
        ∧ lines.map (·.splitOn '\t') = [["Variable".toList, ['2'], ['2'], []],
          ["Method".toList, ['2'], ['3'], ['T', '.', 'f']]])
      ∧ ['T', '.', 'f'].count '.' = 1 ∧ ∃ receiver own, ['T', '.', 'f'] = receiver ++ '.' :: own
        ∧ isIdentifier receiver = true ∧ isIdentifier own = true := by
  obtain ⟨hlines, -, hnames⟩ := ofSource_delimited ofSource_crowded
  have hmethod := hnames ⟨.method, 2, 3, some ['T', '.', 'f']⟩ (by decide) _ rfl
  rw [if_pos (by decide)] at hmethod
  exact ⟨ofSource_crowded, hlines .tsv '\t' rfl, hmethod⟩

end Index

end SpanIndex
