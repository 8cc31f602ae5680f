import SpanIndex.Proofs.Json
import SpanIndex.Proofs.Reread

/-!
# An index as JSON lines

As `jsonl` an index is a line for the package and a line for each record, and each line is one JSON value. The
text of a value has no control characters, so that the newline after a value is the only one in its line. What
is in a package or in a name does not matter: the index is read back from its lines, whatever it is.
-/

namespace SpanIndex

/-! ## Values -/

section Values

theorem shallow_packageJson (package : List Char) : (packageJson package).Shallow 1 := by
  refine .object ?_
  simp [Json.Shallow.string]

theorem Record.shallow_toJson (r : Record) : r.toJson.Shallow 1 := by
  have hkind : (Json.text r.kind.label).Shallow 0 := .string _
  refine .object ?_
  cases r.name with
  | none => simp [hkind, Json.Shallow.nat]
  | some name => simp [hkind, Json.Shallow.nat, Json.Shallow.string]

theorem Kind.ofJson?_label (k : Kind) : Kind.ofJson? (.text k.label) = some k :=
  Record.ofLabel?_label k

theorem line?_nat (line : UInt32) : (Json.nat line.toNat).line? = some line := by
  obtain ⟨d, ds, hd, hdigit⟩ := Json.exists_decimal line.toNat
  have hread := Text.readLine_decimal line
  rw [hd] at hread
  simp [Json.nat, hd, Json.line?, hdigit, hread, Except.toOption]

/-- The names of a record differ as texts where they differ as strings. -/
theorem Json.member?_record (name : String) (ms : List (String × Json)) :
    (record ms).member? name = (ms.reverse.find? (·.1 == name)).map (·.2) := by
  have hname (m : String × Json) : (m.1.toList == name.toList) = (m.1 == name) := by
    rw [Bool.eq_iff_iff, beq_iff_eq, beq_iff_eq, String.toList_inj]
  simp only [record, member?, ← List.map_reverse, List.find?_map, Option.map_map,
    Function.comp_def, hname]

theorem Record.ofJson?_record (ms : List (String × Json)) : ofJson? (.record ms) = (do
    let j := Json.record ms
    ofParts? (← j.member? "kind") (← j.member? "start_line") (← j.member? "end_line")
      (j.member? "name")) :=
  rfl

/-- A record is made again of its value. A name that is left out is no name, an empty one is a name. -/
theorem Record.ofJson?_toJson (r : Record) : Record.ofJson? r.toJson = some r := by
  obtain ⟨kind, startLine, endLine, name⟩ := r
  cases name <;>
    simp [toJson, ofJson?_record, Json.member?_record, ofParts?, line?_nat, Kind.ofJson?_label,
      nameOfJson?]

end Values

/-! ## Lines -/

section Lines

variable {v : Json}

/-- A value in a line of its own is read back. -/
theorem Json.Shallow.read_line (h : v.Shallow 1) : Json.read (v.write ++ ['\n']) = some v :=
  read_write h (by decide) (List.forall_mem_singleton.mpr rfl)

theorem Json.Shallow.newline_not_mem (h : v.Shallow 1) : '\n' ∉ v.write := by
  intro hmem
  exact absurd (h.space_le '\n' hmem) (by decide)

/-- A newline after a text without newlines is the only one. -/
theorem newline_ends {text : List Char} (h : '\n' ∉ text) :
    (text ++ ['\n']).getLast? = some '\n' ∧ (text ++ ['\n']).count '\n' = 1 := by
  simp [List.count_eq_zero.mpr h]

/-- Reads a record from its JSON line. -/
def Record.ofJsonLine? (line : List Char) : Option Record := (Json.read line).bind Record.ofJson?

theorem Record.ofJsonLine?_recordLine (r : Record) :
    ofJsonLine? (Format.jsonl.recordLine r ++ ['\n']) = some r := by
  have hread : Json.read (Format.jsonl.recordLine r ++ ['\n']) = some r.toJson :=
    r.shallow_toJson.read_line
  rw [ofJsonLine?, hread, Option.bind_some, ofJson?_toJson]

theorem mapM_ofJsonLine? (records : List Record) :
    (records.map (Format.jsonl.recordLine · ++ ['\n'])).mapM Record.ofJsonLine? = some records := by
  induction records with
  | nil => rfl
  | cons r records ih =>
    rw [List.map_cons, List.mapM_cons, Record.ofJsonLine?_recordLine, ih]
    rfl

end Lines

/-! ## Indexes -/

namespace Index

/-- The package that the value of the first line names. -/
def packageOfJson? (j : Json) : Option (List Char) := (j.member? "package").bind Json.string?

/-- Reads an index from its JSON lines. -/
def ofJsonLines? : List (List Char) → Option Index
  | [] => none
  | header :: lines => do
    let package ← packageOfJson? (← Json.read header)
    let declarations ← lines.mapM Record.ofJsonLine?
    return ⟨package, declarations⟩

theorem packageOfJson?_packageJson (package : List Char) :
    packageOfJson? (packageJson package) = some package := by
  simp [packageOfJson?, packageJson, Json.member?_record, Json.string?]

theorem cutLines_jsonl (i : Index) : cutLines (Format.jsonl.render i)
    = (Format.jsonl.headerLine i.package ++ ['\n'])
      :: i.declarations.map (Format.jsonl.recordLine · ++ ['\n']) :=
  Format.cutLines_renderRecords (shallow_packageJson i.package).newline_not_mem
    fun r _ => r.shallow_toJson.newline_not_mem

/-- The JSON lines of an index are one more than its records. Each ends with the only newline in it, and the
index is read back from them. -/
theorem ofJsonLines_render (i : Index) :
    (cutLines (Format.jsonl.render i)).flatten = Format.jsonl.render i
      ∧ (cutLines (Format.jsonl.render i)).length = 1 + i.declarations.length
      ∧ (∀ line ∈ cutLines (Format.jsonl.render i),
        line.getLast? = some '\n' ∧ line.count '\n' = 1)
      ∧ ofJsonLines? (cutLines (Format.jsonl.render i)) = some i := by
  have hheader : Json.read (Format.jsonl.headerLine i.package ++ ['\n'])
      = some (packageJson i.package) := (shallow_packageJson i.package).read_line
  refine ⟨flatten_cutLines _, ?_⟩
  rw [cutLines_jsonl]
  refine ⟨by simp [Nat.add_comm], ?_, ?_⟩
  · rw [List.forall_mem_cons, List.forall_mem_map]
    exact ⟨newline_ends (shallow_packageJson i.package).newline_not_mem,
      fun r _ => newline_ends r.shallow_toJson.newline_not_mem⟩
  · rw [ofJsonLines?, hheader, Option.bind_eq_bind, Option.bind_some, packageOfJson?_packageJson,
      mapM_ofJsonLine?]
    rfl

end Index

end SpanIndex
