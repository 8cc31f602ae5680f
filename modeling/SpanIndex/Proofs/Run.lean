import SpanIndex.CommandLine.Run
import SpanIndex.Proofs.Declaration

/-!
# How runs end

A run ends in one of four ways (`Ends`), and the exit code and the output follow from that. A program that
reads the output can tell from its first characters whether there is an index: the diagnostic of a file
without an index begins with `err = `, and nothing else does. The header of an index does not, since the name
of a package has no space in it.
-/

namespace SpanIndex.CommandLine

open Text (Bytes isIdentifier)

/-! ## Ends -/

/-- The arguments can be read, the settings can be loaded, and this is what they ask for. -/
def Resolves (h : Host) (arguments : List Bytes) (j : Job) : Prop :=
  ∃ a s, Arguments.read arguments = .ok a ∧ Settings.load h a.config = .ok s ∧ j = Job.resolve a s

/-- The arguments can be read, but the settings cannot be loaded. -/
def Misconfigured (h : Host) (arguments : List Bytes) (e : Settings.LoadError) : Prop :=
  ∃ a, Arguments.read arguments = .ok a ∧ Settings.load h a.config = .error e

/-- How a run with given arguments may end. -/
inductive Ends (h : Host) (arguments : List Bytes) : Outcome → Prop
  | stopped {s : Stop} (hread : Arguments.read arguments = .error s) : Ends h arguments (.stopped s)
  | notConfigured {e : Settings.LoadError} (hload : Misconfigured h arguments e) :
    Ends h arguments (.notConfigured e)
  | failed {j : Job} {e : FileError} (hjob : Resolves h arguments j) (hindex : j.index h = .error e) :
    Ends h arguments (.failed j e)
  | done {j : Job} {i : Index} (hjob : Resolves h arguments j) (hindex : j.index h = .ok i) :
    Ends h arguments (.done j i)

section Ends

variable {h : Host} {arguments : List Bytes} {o : Outcome} {j : Job}

theorem ends_run (h : Host) (arguments : List Bytes) : Ends h arguments (run h arguments) := by
  unfold run
  split
  · next s hread => exact .stopped hread
  · next a hread =>
    unfold runWith
    split
    · next e hload => exact .notConfigured ⟨a, hread, hload⟩
    · next s hload =>
      have hjob : Resolves h arguments (Job.resolve a s) := ⟨a, s, hread, hload, rfl⟩
      unfold runJob
      split
      · next i hindex => exact .done hjob hindex
      · next e hindex => exact .failed hjob hindex

theorem Ends.run_eq (ho : Ends h arguments o) : run h arguments = o := by
  cases ho with
  | stopped hread => rw [run, hread]
  | notConfigured hload =>
    obtain ⟨a, hread, hload⟩ := hload
    simp [run, runWith, hread, hload]
  | failed hjob hindex =>
    obtain ⟨a, s, hread, hload, rfl⟩ := hjob
    simp [run, runWith, runJob, hread, hload, hindex]
  | done hjob hindex =>
    obtain ⟨a, s, hread, hload, rfl⟩ := hjob
    simp [run, runWith, runJob, hread, hload, hindex]

/-- A run ends in exactly one way. -/
theorem run_eq_iff : run h arguments = o ↔ Ends h arguments o :=
  ⟨fun ho => ho ▸ ends_run h arguments, Ends.run_eq⟩

theorem ends_stopped_iff {s : Stop} :
    Ends h arguments (.stopped s) ↔ Arguments.read arguments = .error s :=
  ⟨fun | .stopped hread => hread, .stopped⟩

theorem ends_notConfigured_iff {e : Settings.LoadError} :
    Ends h arguments (.notConfigured e) ↔ Misconfigured h arguments e :=
  ⟨fun | .notConfigured hload => hload, .notConfigured⟩

theorem ends_failed_iff {e : FileError} :
    Ends h arguments (.failed j e) ↔ Resolves h arguments j ∧ j.index h = .error e :=
  ⟨fun | .failed hjob hindex => ⟨hjob, hindex⟩, fun ⟨hjob, hindex⟩ => .failed hjob hindex⟩

theorem ends_done_iff {i : Index} :
    Ends h arguments (.done j i) ↔ Resolves h arguments j ∧ j.index h = .ok i :=
  ⟨fun | .done hjob hindex => ⟨hjob, hindex⟩, fun ⟨hjob, hindex⟩ => .done hjob hindex⟩

end Ends

/-! ## Exit codes -/

namespace Outcome

variable {o : Outcome}

theorem exitCode_eq_two_iff : o.exitCode = 2 ↔ ∃ j e, o = .failed j e := by
  cases o with
  | stopped s => cases s <;> simp [exitCode]
  | _ => simp [exitCode]

theorem exitCode_eq_one_iff :
    o.exitCode = 1 ↔ (∃ e, o = .stopped (.refused e)) ∨ ∃ e, o = .notConfigured e := by
  cases o with
  | stopped s => cases s <;> simp [exitCode]
  | _ => simp [exitCode]

theorem exitCode_eq_zero_iff :
    o.exitCode = 0 ↔ o = .stopped .help ∨ o = .stopped .version ∨ ∃ j i, o = .done j i := by
  cases o with
  | stopped s => cases s <;> simp [exitCode]
  | _ => simp [exitCode]

end Outcome

/-! ## The first characters of an output -/

section Output

variable {package rest text : List Char}

theorem not_diagnostic_of_head {c : Char} (h : text.head? = some c) (hc : c ≠ 'e') :
    ¬ "err = ".toList <+: text := by
  rintro ⟨rest, rfl⟩
  exact hc (Option.some.inj h).symm

/-- A line with an identifier does not look like a diagnostic: there is no space in it. -/
theorem not_diagnostic_of_isIdentifier (h : isIdentifier package = true) :
    ¬ "err = ".toList <+: package ++ '\n' :: rest := by
  intro hprefix
  have hline : package ++ ['\n'] <+: package ++ '\n' :: rest := ⟨rest, by simp⟩
  have hpackage : ' ' ∉ package := Text.not_mem_of_isIdentifier h (by decide)
  have hspace : ' ' ∉ package ++ ['\n'] := by simp [hpackage]
  -- a long line would have the space of the diagnostic, a short one ends before the diagnostic does
  rcases List.prefix_or_prefix_of_prefix hprefix hline with hle | hle
  · exact hspace (hle.subset (by decide))
  · have hmem : '\n' ∈ "err = ".toList := hle.subset (by simp)
    exact absurd hmem (by decide)

theorem not_diagnostic_renderRecords (h : isIdentifier package = true) (f : Format)
    (records : List Record) : ¬ "err = ".toList <+: f.renderRecords package records := by
  rw [Format.renderRecords, Format.unlines, List.flatMap_cons, List.append_assoc,
    List.singleton_append]
  cases f with
  | csv => exact not_diagnostic_of_isIdentifier h
  | tsv => exact not_diagnostic_of_isIdentifier h
  | jsonl =>
    -- an object begins with a brace
    exact not_diagnostic_of_head (c := '\x7b') rfl (by decide)

theorem isIdentifier_of_ofSource {o : Options} {source : List Char} {i : Index}
    (h : Index.ofSource o source = .ok i) : isIdentifier i.package = true := by
  obtain ⟨hfit, -, hpackage, -⟩ := Index.of_ofSource h
  exact isIdentifier_package hfit hpackage

/-- A job has an index if its file can be read and the text of the file has one. -/
theorem Job.index_eq_ok_iff {h : Host} {j : Job} {i : Index} : j.index h = .ok i
    ↔ ∃ source, j.sourceText h = .ok source ∧ Index.ofSource j.options source = .ok i := by
  rw [Job.index]
  cases j.sourceText h with
  | error e => simp
  | ok source => cases hi : Index.ofSource j.options source <;> simp [Except.mapError, hi]

/-- The records that a job asks for: all of them, or the one at a line, if there is one. -/
def Job.wanted (j : Job) (i : Index) : List Record :=
  match j.line with
  | none => i.declarations
  | some line => (i.declarationAt line).toList

theorem Job.render_eq (j : Job) (i : Index) :
    j.render i = j.format.renderRecords i.package (j.wanted i) := by
  rw [Job.render, Job.wanted]
  cases j.line <;> rfl

theorem Job.not_diagnostic_render {h : Host} {j : Job} {i : Index} (hindex : j.index h = .ok i) :
    ¬ "err = ".toList <+: j.render i := by
  obtain ⟨source, -, hsource⟩ := Job.index_eq_ok_iff.mp hindex
  rw [Job.render_eq]
  exact not_diagnostic_renderRecords (isIdentifier_of_ofSource hsource) j.format _

/-- Only a file without an index has a diagnostic. -/
theorem Ends.diagnostic_iff {h : Host} {arguments : List Bytes} {o : Outcome}
    (ho : Ends h arguments o) (program : List Char) :
    "err = ".toList <+: o.output program ↔ o.exitCode = 2 := by
  cases ho with
  | @stopped s hread =>
    cases s with
    | help =>
      have hhelp : ¬ "err = ".toList <+: helpText program :=
        not_diagnostic_of_head (c := 'P') rfl (by decide)
      simpa [Outcome.exitCode, Outcome.output] using hhelp
    | version =>
      have hversion : ¬ "err = ".toList <+: versionText := by decide
      simpa [Outcome.exitCode, Outcome.output] using hversion
    | refused e => simp [Outcome.exitCode, Outcome.output]
  | notConfigured hload => simp [Outcome.exitCode, Outcome.output]
  | @failed j e hjob hindex =>
    have hfailed : "err = ".toList <+: diagnostic j e :=
      (List.prefix_append _ _).trans (List.prefix_append _ _)
    simpa [Outcome.exitCode, Outcome.output] using hfailed
  | done hjob hindex =>
    simpa [Outcome.exitCode, Outcome.output] using Job.not_diagnostic_render hindex

end Output

/-- The exit code is 2 if there is a job and its file has no index, and then alone the output begins as a
diagnostic. It is 1 if the arguments are refused or the settings cannot be loaded, and then there is no
output. It is 0 if the output is the help text, the version text or the text of an index. -/
theorem run_exitCode (h : Host) (arguments : List Bytes) (program : List Char) :
    ((run h arguments).exitCode = 2 ↔ ∃ j e, Resolves h arguments j ∧ j.index h = .error e)
      ∧ ((run h arguments).exitCode = 2 ↔ "err = ".toList <+: (run h arguments).output program)
      ∧ ((run h arguments).exitCode = 1
        ↔ (∃ e, Arguments.read arguments = .error (.refused e)) ∨ ∃ e, Misconfigured h arguments e)
      ∧ ((run h arguments).exitCode = 1 → (run h arguments).output program = [])
      ∧ ((run h arguments).exitCode = 0
        ↔ (Arguments.read arguments = .error .help
            ∧ (run h arguments).output program = helpText program)
          ∨ (Arguments.read arguments = .error .version
            ∧ (run h arguments).output program = versionText)
          ∨ ∃ j i, Resolves h arguments j ∧ j.index h = .ok i
            ∧ (run h arguments).output program = j.format.renderRecords i.package (j.wanted i))
      ∧ ∀ (o : Options) (source : List Char) (i : Index) (f : Format), Index.ofSource o source = .ok i →
        ¬ "err = ".toList <+: f.render i ∧ ∀ line, ¬ "err = ".toList <+: f.renderAt i line := by
  refine ⟨?_, ?_, ?_, ?_, ?_, ?_⟩
  · simp only [Outcome.exitCode_eq_two_iff, run_eq_iff, ends_failed_iff]
  · exact ((ends_run h arguments).diagnostic_iff program).symm
  · simp only [Outcome.exitCode_eq_one_iff, run_eq_iff, ends_stopped_iff, ends_notConfigured_iff]
  · rw [Outcome.exitCode_eq_one_iff]
    rintro (⟨e, ho⟩ | ⟨e, ho⟩)
    · rw [ho]
      rfl
    · rw [ho]
      rfl
  · rw [Outcome.exitCode_eq_zero_iff]
    constructor
    · rintro (ho | ho | ⟨j, i, ho⟩)
      · exact Or.inl ⟨ends_stopped_iff.mp (run_eq_iff.mp ho), by rw [ho]; rfl⟩
      · exact Or.inr (Or.inl ⟨ends_stopped_iff.mp (run_eq_iff.mp ho), by rw [ho]; rfl⟩)
      · obtain ⟨hjob, hindex⟩ := ends_done_iff.mp (run_eq_iff.mp ho)
        exact Or.inr (Or.inr ⟨j, i, hjob, hindex, by rw [ho]; exact j.render_eq i⟩)
    · rintro (⟨hread, -⟩ | ⟨hread, -⟩ | ⟨j, i, hjob, hindex, -⟩)
      · exact Or.inl (run_eq_iff.mpr (.stopped hread))
      · exact Or.inr (Or.inl (run_eq_iff.mpr (.stopped hread)))
      · exact Or.inr (Or.inr ⟨j, i, run_eq_iff.mpr (.done hjob hindex)⟩)
  · intro o source i f hi
    have hpackage := isIdentifier_of_ofSource hi
    exact ⟨not_diagnostic_renderRecords hpackage f _, fun line => not_diagnostic_renderRecords hpackage f _⟩

end SpanIndex.CommandLine
