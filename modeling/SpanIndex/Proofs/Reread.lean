import Mathlib.Logic.Relation
import SpanIndex.Proofs.Span

/-!
# An index is read back from its own text

The text of an index is a line for the package and a line for each record. It is read back as the same
index if the package has no newline and every record is writable, and only then: with a newline too many
there are more lines than records. Both hold of the empty index, of every index made of a source text, and
after every further step, so that they hold after any number of steps.
-/

namespace SpanIndex

open Syntax (Node byteCount)

/-! ## Lines of a text -/

section Lines

variable {line text : List Char} {lines : List (List Char)}

/-- The first line ends with the first newline. -/
theorem cutLines_append (h : '\n' ∉ line) (text : List Char) :
    cutLines (line ++ '\n' :: text) = (line ++ ['\n']) :: cutLines text := by
  induction line with
  | nil => rw [List.nil_append, cutLines, if_pos rfl, List.nil_append]
  | cons c line ih =>
    obtain ⟨hc, h⟩ := not_or.mp (mt List.mem_cons.mpr h)
    rw [List.cons_append, cutLines, if_neg (Ne.symm hc), ih h, List.cons_append]

theorem cutLines_unlines (h : ∀ line ∈ lines, '\n' ∉ line) :
    cutLines (Format.unlines lines) = lines.map (· ++ ['\n']) := by
  induction lines with
  | nil => rfl
  | cons line lines ih =>
    obtain ⟨hline, hlines⟩ := List.forall_mem_cons.mp h
    rw [Format.unlines, List.flatMap_cons, List.append_assoc, List.singleton_append,
      cutLines_append hline, List.map_cons]
    exact congrArg _ (ih hlines)

/-- Cutting loses nothing. -/
theorem flatten_cutLines (text : List Char) : (cutLines text).flatten = text := by
  induction text with
  | nil => rfl
  | cons c cs ih =>
    rw [cutLines]
    split_ifs with hc
    · simp [hc, ih]
    · split <;> next hlines => simpa [hlines] using ih

theorem Format.cutLines_renderRecords {f : Format} {package : List Char} {records : List Record}
    (hpackage : '\n' ∉ f.headerLine package) (hrecords : ∀ r ∈ records, '\n' ∉ f.recordLine r) :
    cutLines (f.renderRecords package records)
      = (f.headerLine package ++ ['\n']) :: records.map (f.recordLine · ++ ['\n']) := by
  rw [renderRecords, cutLines_unlines]
  · simp
  · simpa using ⟨hpackage, hrecords⟩

/-- A text that ends with a newline has as many lines as newlines. -/
theorem length_cutLines (h : ∀ c ∈ text.getLast?, c = '\n') :
    (cutLines text).length = text.count '\n' := by
  induction text with
  | nil => rfl
  | cons c cs ih =>
    cases cs with
    | nil => simp [h c rfl, cutLines]
    | cons d ds =>
      have ih := ih (by simpa using h)
      -- there is a line for `c` to go in front of
      have hne : cutLines (d :: ds) ≠ [] := by
        intro hnil
        simpa [hnil] using flatten_cutLines (d :: ds)
      obtain ⟨line, lines, hlines⟩ := List.exists_cons_of_ne_nil hne
      rw [hlines] at ih
      rw [cutLines, hlines]
      by_cases hc : c = '\n'
      · simp [hc, ← ih]
      · simp [hc, ← ih]

theorem count_unlines (lines : List (List Char)) :
    (Format.unlines lines).count '\n' = lines.length + lines.flatten.count '\n' := by
  induction lines with
  | nil => rfl
  | cons line lines ih =>
    rw [Format.unlines] at ih ⊢
    simp only [List.flatMap_cons, List.flatten_cons, List.count_append, List.length_cons, ih]
    simp
    omega

theorem getLast?_unlines {c : Char} (h : c ∈ (Format.unlines lines).getLast?) : c = '\n' := by
  induction lines using List.reverseRecOn with
  | nil => simp [Format.unlines] at h
  | append_singleton lines line _ =>
    simp [Format.unlines, ← List.append_assoc] at h
    exact h.symm

theorem afterHeader_suffix (text : List Char) : afterHeader text <:+ text :=
  (List.drop_suffix _ _).trans (List.dropWhile_suffix _)

/-- One newline is dropped with the first line. -/
theorem count_afterHeader (h : '\n' ∈ text) :
    (afterHeader text).count '\n' + 1 = text.count '\n' := by
  obtain ⟨line, rest, rfl, hline⟩ := List.eq_append_cons_of_mem h
  rw [afterHeader, Record.dropWhile_bne hline]
  simp [List.count_eq_zero.mpr hline]

/-- Records are read from lines one by one. -/
theorem readRecords_eq_ok_iff {records : List Record} : readRecords lines = .ok records
    ↔ List.Forall₂ (fun line r => Record.ofLine line = .ok r) lines records := by
  induction lines generalizing records with
  | nil => cases records <;> simp [readRecords]
  | cons line lines ih =>
    rw [readRecords, List.forall₂_cons_left_iff]
    simp only [← ih]
    cases Record.ofLine line with
    | error e => simp
    | ok r => cases readRecords lines <;> simp [eq_comm]

theorem readRecords_lines {records : List Record} :
    readRecords (records.map fun r => r.delimited ',' ++ ['\n']) = .ok records
      ↔ ∀ r ∈ records, Record.ofLine (r.delimited ',' ++ ['\n']) = .ok r := by
  rw [readRecords_eq_ok_iff, List.forall₂_map_left_iff, List.forall₂_same]

end Lines

theorem Record.Writable.newline_not_mem {r : Record} (h : r.Writable) {d : Char} (hd : d ≠ '\n') :
    '\n' ∉ r.delimited d := by
  have hlabel : '\n' ∉ r.kind.label.toList := by cases r.kind <;> decide
  have hdigits : ∀ n, '\n' ∉ Text.decimal n := fun n => Text.not_mem_decimal (by decide)
  have hname : '\n' ∉ r.nameOrEmpty := by
    rw [Record.nameOrEmpty]
    cases hname : r.name with
    | none => exact List.not_mem_nil
    | some name => exact (h.plain name hname).newline_not_mem
  simp [Record.delimited, hlabel, hdigits, hname, hd.symm]

namespace Index

variable {i j : Index}

/-! ## The text of an index -/

/-- An index that its own text gives back. -/
structure Writable (i : Index) : Prop where
  package : '\n' ∉ i.package
  declarations : ∀ r ∈ i.declarations, r.Writable

theorem render_csv (i : Index) : Format.csv.render i
    = i.package ++ '\n' :: Format.unlines (i.declarations.map (Record.delimited ',')) := by
  rw [Format.render, Format.renderRecords, Format.unlines, List.flatMap_cons, List.append_assoc]
  rfl

/-- The first line is that of the package. -/
theorem Writable.header (h : i.Writable) :
    (Format.csv.render i).takeWhile (· != '\n') = i.package := by
  rw [render_csv, Record.takeWhile_bne h.package]

theorem cutLines_csv (hpackage : '\n' ∉ i.package)
    (hrecords : ∀ r ∈ i.declarations, '\n' ∉ r.delimited ',') :
    cutLines (afterHeader (Format.csv.render i))
      = i.declarations.map fun r => r.delimited ',' ++ ['\n'] := by
  rw [afterHeader, render_csv, Record.dropWhile_bne hpackage, List.drop_one, List.tail_cons,
    cutLines_unlines (by simpa using hrecords), List.map_map]
  rfl

theorem reread_eq_ok_self :
    i.reread = .ok i
      ↔ readRecords (cutLines (afterHeader (Format.csv.render i))) = .ok i.declarations := by
  obtain ⟨package, declarations⟩ := i
  rw [Index.reread]
  cases readRecords (cutLines (afterHeader (Format.csv.render ⟨package, declarations⟩))) <;> simp

/-- The other lines are read back as the records. -/
theorem Writable.reread (h : i.Writable) : i.reread = .ok i := by
  have hlines := cutLines_csv h.package fun r hr =>
    (h.declarations r hr).newline_not_mem (by decide)
  rw [reread_eq_ok_self, hlines, readRecords_lines]
  exact fun r hr => Record.ofLine_delimited (h.declarations r hr)

/-! ### Only these are read back -/

/-- There is a line after the first for each record, and for each newline in the package or in a record. -/
theorem length_cutLines_csv (i : Index) :
    (cutLines (afterHeader (Format.csv.render i))).length = i.declarations.length
      + (i.package :: i.declarations.map (Record.delimited ',')).flatten.count '\n' := by
  have hcount := count_unlines (i.package :: i.declarations.map (Record.delimited ','))
  have hmem : '\n' ∈ Format.csv.render i := by simp [render_csv]
  have hafter := count_afterHeader hmem
  rw [length_cutLines]
  · rw [List.length_cons, List.length_map] at hcount
    change (Format.csv.render i).count '\n' = _ at hcount
    omega
  · -- the text that is cut ends as the whole text does
    intro c hc
    obtain ⟨start, hstart⟩ := afterHeader_suffix (Format.csv.render i)
    have hlast : c ∈ (Format.csv.render i).getLast? := by
      rw [← hstart, List.getLast?_append, hc, Option.some_or]
      rfl
    exact getLast?_unlines hlast

/-- No record is read back if there are newlines that end no line: there would be too many lines. -/
theorem newline_not_mem_of_reread (h : i.reread = .ok i) :
    ∀ line ∈ i.package :: i.declarations.map (Record.delimited ','), '\n' ∉ line := by
  have hlines := (readRecords_eq_ok_iff.mp (reread_eq_ok_self.mp h)).length_eq
  rw [length_cutLines_csv] at hlines
  intro line hline hmem
  have hpos : 0 < (i.package :: i.declarations.map (Record.delimited ',')).flatten.count '\n' :=
    List.count_pos_iff.mpr (List.mem_flatten.mpr ⟨line, hline, hmem⟩)
  omega

theorem writable_of_reread (h : i.reread = .ok i) : i.Writable := by
  obtain ⟨hpackage, hrecords⟩ := List.forall_mem_cons.mp (newline_not_mem_of_reread h)
  rw [List.forall_mem_map] at hrecords
  rw [reread_eq_ok_self, cutLines_csv hpackage hrecords, readRecords_lines] at h
  refine ⟨hpackage, fun r hr => Record.writable_of_ofLine (h r hr) ?_⟩
  rw [Text.dropEndWhile_append (List.forall_mem_singleton.mpr rfl)]
  exact fun hmem => hrecords r hr ((Text.dropEndWhile_prefix _ _).subset hmem)

/-- The indexes that are read back from their own text are those whose package has no newline and whose
records are writable. -/
theorem reread_eq_ok_iff (i : Index) : i.reread = .ok i ↔ i.Writable :=
  ⟨writable_of_reread, Writable.reread⟩

-- a newline in the package can make a record of what follows it
example : (Index.mk "p\nType,1,1,".toList []).reread
    = .ok ⟨"p\nType,1,1,".toList, [⟨.type, 1, 1, none⟩]⟩ := by decide

/-! ## Steps -/

/-- What may be done to an index. The bytes of a source text are counted in 32 bits, so it is shorter than
that; the newlines of a line that is appended all stand at its end. -/
inductive Step : Index → Index → Prop
  | load {i j : Index} {o : Options} {source : List Char} (hsize : byteCount source < 4294967296)
    (h : ofSource o source = .ok j) : Step i j
  | append {i : Index} {r : Record} {line : List Char} (h : Record.ofLine line = .ok r)
    (hline : '\n' ∉ Text.dropEndWhile (· == '\n') line) : Step i (i.append r)
  | reread {i j : Index} (h : i.reread = .ok j) : Step i j

theorem writable_empty : empty.Writable := ⟨List.not_mem_nil, fun _ hr => nomatch hr⟩

/-- The index of a source text. -/
theorem writable_of_ofSource {o : Options} {source : List Char} (h : ofSource o source = .ok i)
    (hsize : byteCount source < 4294967296) : i.Writable := by
  obtain ⟨hfit, -, hpackage, hdeclarations⟩ := of_ofSource h
  refine ⟨(Record.plainName_of_isIdentifier (isIdentifier_package hfit hpackage)).newline_not_mem, ?_⟩
  intro r hr
  rw [hdeclarations] at hr
  obtain ⟨n, hn, rfl⟩ := List.mem_map.mp hr
  have hmem := (declarationNodes_sublist _).mem hn
  obtain ⟨hs, he⟩ := toNat_lines h hsize n hn
  obtain ⟨hle, -⟩ := (Syntax.rootOf_inOrder source).of_mem hmem
  refine ⟨UInt32.le_iff_toNat_le.mpr ?_, ?_⟩
  · rw [Record.startLine_ofNode, Record.endLine_ofNode, hs, he]
    exact Nat.succ_le_succ hle
  · intro name hname
    exact (nameShape_of_describe hfit hmem hname).plainName

theorem Writable.append {r : Record} (h : i.Writable) (hr : r.Writable) : (i.append r).Writable := by
  refine ⟨h.package, fun s hs => ?_⟩
  rcases List.mem_append.mp hs with hs | hs
  · exact h.declarations s hs
  · rw [List.mem_singleton.mp hs]
    exact hr

theorem Step.writable (h : Step i j) (hi : i.Writable) : j.Writable := by
  cases h with
  | load hsize h => exact writable_of_ofSource h hsize
  | append h hline => exact hi.append (Record.writable_of_ofLine h hline)
  | reread h =>
    -- reading again changes nothing, so there is nothing new to show
    rw [hi.reread] at h
    cases h
    exact hi

theorem writable_of_steps (h : Relation.ReflTransGen Step empty i) : i.Writable := by
  induction h with
  | refl => exact writable_empty
  | tail _ hstep ih => exact hstep.writable ih

/-- After any number of steps, an index is read back from its own text, whose first line is the package. -/
theorem reread_of_steps (h : Relation.ReflTransGen Step empty i) :
    i.reread = .ok i ∧ (Format.csv.render i).takeWhile (· != '\n') = i.package :=
  ⟨(writable_of_steps h).reread, (writable_of_steps h).header⟩

/-- An index with a record whose name has a comma and a space in it. -/
def amended : Index := crowdedIndex.append ⟨.type, 4, 9, some ['A', ',', ' ', 'B']⟩

theorem amended_steps : Relation.ReflTransGen Step empty amended := by
  have hload : Step empty crowdedIndex := .load (by decide) ofSource_crowded
  have hread : Record.ofLine "Type,+4, 9 ,A, B\r\n".toList
      = .ok ⟨.type, 4, 9, some ['A', ',', ' ', 'B']⟩ := by decide
  have hreread : Step amended amended := .reread (by decide)
  exact ((Relation.ReflTransGen.single hload).tail (.append hread (by decide))).tail hreread

theorem reread_of_steps_amended :
    Relation.ReflTransGen Step empty amended ∧ amended.reread = .ok amended
      ∧ (Format.csv.render amended).takeWhile (· != '\n') = amended.package :=
  ⟨amended_steps, reread_of_steps amended_steps⟩

end Index

end SpanIndex
