import SpanIndex.Host.Directory
import SpanIndex.Proofs.JsonLines
import SpanIndex.Proofs.Run

/-!
# Asking for a line

A run that is asked for a line writes the first line of the whole text and, if a declaration covers the line
that is asked for, the line of the first such declaration. Whoever has the whole text as `csv` can find that
declaration too: the records that are read from its lines are those of the index, so that the first of them
that covers the line is at the same place. The lines of a record and of a package do not depend on what
stands around them, in none of the formats.
-/

namespace SpanIndex

open Syntax (byteCount)

/-! ## Lines in every format -/

section Lines

variable {i : Index} {r : Record} {package : List Char}

theorem Format.newline_not_mem_headerLine (f : Format) (h : '\n' ∉ package) :
    '\n' ∉ f.headerLine package := by
  cases f with
  | csv => exact h
  | tsv => exact h
  | jsonl => exact (shallow_packageJson package).newline_not_mem

theorem Format.newline_not_mem_recordLine (f : Format) (h : r.Writable) : '\n' ∉ f.recordLine r := by
  cases f with
  | csv => exact h.newline_not_mem (by decide)
  | tsv => exact h.newline_not_mem (by decide)
  | jsonl => exact r.shallow_toJson.newline_not_mem

theorem Index.Writable.cutLines_render (h : i.Writable) (f : Format) :
    cutLines (f.render i)
      = (f.headerLine i.package ++ ['\n']) :: i.declarations.map (f.recordLine · ++ ['\n']) :=
  Format.cutLines_renderRecords (f.newline_not_mem_headerLine h.package)
    fun r hr => f.newline_not_mem_recordLine (h.declarations r hr)

end Lines

/-! ## The declaration at a line -/

section AtLine

variable {f : Format} {i : Index} {line : UInt32}

theorem Format.renderAt_of_none (h : i.declarations.findIdx? (·.contains line) = none) :
    f.renderAt i line = f.headerLine i.package ++ ['\n'] := by
  have hfind : i.declarationAt line = none := by
    rw [Index.declarationAt, List.find?_eq_bind_findIdx?_getElem?, h, Option.bind_none]
  simp [renderAt, hfind, renderRecords, unlines]

theorem Format.renderAt_of_some {k : Nat} (h : i.declarations.findIdx? (·.contains line) = some k) :
    ∃ r, i.declarations[k]? = some r
      ∧ f.renderAt i line = f.headerLine i.package ++ ['\n'] ++ (f.recordLine r ++ ['\n']) := by
  obtain ⟨hk, -⟩ := List.findIdx?_eq_some_iff_getElem.mp h
  have hfind : i.declarationAt line = some i.declarations[k] := by
    rw [Index.declarationAt, List.find?_eq_bind_findIdx?_getElem?, h, Option.bind_some,
      List.getElem?_eq_getElem hk]
  refine ⟨_, List.getElem?_eq_getElem hk, ?_⟩
  simp [renderAt, hfind, renderRecords, unlines]

end AtLine

namespace CommandLine

variable {h : Host} {j : Job} {source : List Char} {i : Index}

/-- What a job writes. -/
def Job.printed (j : Job) (h : Host) (program : List Char) : List Char := (runJob h j).output program

theorem Job.printed_eq (hsource : j.sourceText h = .ok source)
    (hindex : Index.ofSource j.options source = .ok i) (program : List Char) :
    j.printed h program = j.render i := by
  have hjob : j.index h = .ok i := Job.index_eq_ok_iff.mpr ⟨source, hsource, hindex⟩
  simp [Job.printed, runJob, hjob, Outcome.output]

/-- The output for a line is the first line of the whole output and, if there is one, the line at the place
of the first record that covers the line, among the records that are read from the whole output as `csv`. -/
theorem printed_atLine (hsource : j.sourceText h = .ok source)
    (hindex : Index.ofSource j.options source = .ok i) (hsize : byteCount source < 4294967296)
    (program : List Char) (line : UInt32) :
    ∃ header body records,
      cutLines (Job.printed { j with line := none } h program) = header :: body
        ∧ readRecords (cutLines (afterHeader
            (Job.printed { j with format := .csv, line := none } h program))) = .ok records
        ∧ match records.findIdx? (·.contains line) with
          | some k => ∃ found, body[k]? = some found
            ∧ Job.printed { j with line := some line } h program = header ++ found
          | none => Job.printed { j with line := some line } h program = header := by
  have hwritable := Index.writable_of_ofSource hindex hsize
  have hprinted : ∀ (f : Format) (l : Option UInt32),
      Job.printed { j with format := f, line := l } h program
        = Job.render { j with format := f, line := l } i :=
    fun f l => Job.printed_eq (j := { j with format := f, line := l }) hsource hindex program
  refine ⟨j.format.headerLine i.package ++ ['\n'],
    i.declarations.map (j.format.recordLine · ++ ['\n']), i.declarations, ?_, ?_, ?_⟩
  · rw [hprinted]
    exact hwritable.cutLines_render j.format
  · rw [hprinted]
    exact Index.reread_eq_ok_self.mp hwritable.reread
  · rw [hprinted]
    split
    · next k hk =>
      obtain ⟨r, hr, hrender⟩ := Format.renderAt_of_some hk
      exact ⟨j.format.recordLine r ++ ['\n'], by simp [hr], hrender⟩
    · next hnone => exact Format.renderAt_of_none hnone

/-- A host with one source file. -/
def crowdedHost : Host :=
  .ofDirectory ⟨bytesOf "/w", [([bytesOf "p.go"], some (Text.encode Index.crowded))]⟩ []

def crowdedJob : Job := ⟨bytesOf "p.go", .jsonl, {}, none⟩

theorem sourceText_crowded : crowdedJob.sourceText crowdedHost = .ok Index.crowded := by
  decide +kernel

/-- Two declarations cover the second line. -/
theorem printed_atLine_crowded :
    crowdedJob.sourceText crowdedHost = .ok Index.crowded
      ∧ Index.ofSource crowdedJob.options Index.crowded = .ok Index.crowdedIndex
      ∧ byteCount Index.crowded < 4294967296
      ∧ ∃ header body records,
        cutLines (Job.printed { crowdedJob with line := none } crowdedHost []) = header :: body
          ∧ readRecords (cutLines (afterHeader
              (Job.printed { crowdedJob with format := .csv, line := none } crowdedHost []))) = .ok records
          ∧ match records.findIdx? (·.contains 2) with
            | some k => ∃ found, body[k]? = some found
              ∧ Job.printed { crowdedJob with line := some 2 } crowdedHost [] = header ++ found
            | none => Job.printed { crowdedJob with line := some 2 } crowdedHost [] = header :=
  ⟨sourceText_crowded, Index.ofSource_crowded, by decide,
    printed_atLine sourceText_crowded Index.ofSource_crowded (by decide) [] 2⟩

end CommandLine

end SpanIndex
