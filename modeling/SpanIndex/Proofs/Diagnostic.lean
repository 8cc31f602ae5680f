import SpanIndex.Host.Directory
import SpanIndex.Proofs.FirstFault
import SpanIndex.Proofs.FirstMisplaced
import SpanIndex.Proofs.Record
import SpanIndex.Proofs.Run

/-!
# Diagnostics are single lines

A file without an index is reported on a line of its own. The message quotes the path and, where a node is at
fault, the kind of the node or the beginning of its text. That beginning ends with the first line, however
many lines the node has, and no node has a line break in its kind. So the only line breaks of a diagnostic
are the one at its end and those of the path.
-/

namespace SpanIndex

open Syntax (Node)

/-! ## What is quoted -/

theorem newline_not_mem_snippet (text : List Char) : '\n' ∉ snippet text := by
  intro h
  have htrim : '\n' ∈ Text.trim (text.takeWhile (· != '\n')) := List.mem_of_mem_take h
  have hline : '\n' ∈ text.takeWhile (· != '\n') := by
    have hdrop := (List.dropWhile_sublist _).subset (List.mem_reverse.mp htrim)
    exact (List.dropWhile_sublist _).subset (List.mem_reverse.mp hdrop)
  simpa using List.mem_takeWhile_imp hline

theorem newline_not_mem_quotation {before after : String} (text : List Char)
    (hbefore : '\n' ∉ before.toList) (hafter : '\n' ∉ after.toList) :
    '\n' ∉ before.toList ++ snippet text ++ after.toList := by
  rw [List.mem_append, List.mem_append]
  exact not_or.mpr ⟨not_or.mpr ⟨hbefore, newline_not_mem_snippet text⟩, hafter⟩

/-- A line break has no node, and no other kind has one in it. -/
theorem Syntax.Tree.Label.newline_not_mem_kind {l : Syntax.Label} (h : l.isVisible = true) :
    '\n' ∉ (kind l).toList := by
  match l with
  | .symbol (.terminal t) =>
    have ht : t ≠ .newline := by
      rintro rfl
      cases h
    show '\n' ∉ t.name.toList
    cases t <;> first | decide | exact absurd rfl ht
  | .symbol (.category c) =>
    show '\n' ∉ c.name.toList
    cases c <;> decide
  | .error => decide
  | .skipped => cases h
  | .endOfInput => cases h

theorem Syntax.Node.Shows.newline_not_mem_kind {source : List Char} {n : Node} {t : Syntax.Tree}
    (h : n.Shows source t) : '\n' ∉ n.kind.toList := by
  obtain ⟨a, -, hn⟩ := h.shown
  rw [hn]
  cases a with
  | none => exact Syntax.Tree.Label.newline_not_mem_kind h.visible
  | some a =>
    show '\n' ∉ a.kind.toList
    cases a <;> decide

/-! ## Messages about a file -/

mutual

theorem Syntax.Node.below_of_mem_preorder :
    ∀ {m : Node} (n : Node), m ∈ n.preorder → m = n ∨ m.Below n
  | m, .mk _ _ _ _ _ _ _ children, h => by
    rw [preorder, List.mem_cons] at h
    rcases h with rfl | h
    · exact Or.inl rfl
    · exact Or.inr (below_of_mem_preorderAll (n := .mk _ _ _ _ _ _ _ children) children
        (List.Subset.refl _) h)

theorem Syntax.Node.below_of_mem_preorderAll :
    ∀ {m n : Node} (ns : List Node), ns ⊆ n.children → m ∈ preorderAll ns → m.Below n
  | _, _, [], _, h => nomatch h
  | m, n, c :: cs, hsub, h => by
    obtain ⟨hc, hcs⟩ := List.cons_subset.mp hsub
    rw [preorderAll, List.mem_append] at h
    rcases h with h | h
    · rcases below_of_mem_preorder c h with rfl | h
      · exact .child hc
      · exact .deeper hc h
    · exact below_of_mem_preorderAll cs hcs h

end

/-- The fault that is found describes a node of the tree. -/
theorem newline_not_mem_syntaxFault {source : List Char} {f : Located SyntaxFault}
    (h : firstSyntaxFault (Syntax.rootOf source) = some f) : '\n' ∉ f.cause.message := by
  obtain ⟨hfirst, -⟩ := firstFault_firstSyntaxFault (Syntax.rootOf source)
  generalize hnodes : (Syntax.rootOf source).descendants = ns at hfirst
  rw [h] at hfirst
  cases hfirst with
  | @found before after n _ _ fault describes =>
    have hmem : n ∈ (Syntax.rootOf source).descendants := by simp [hnodes]
    have hbelow := Syntax.Node.below_of_mem_preorderAll _ (List.Subset.refl _) hmem
    obtain ⟨t, ht⟩ := Syntax.shows_of_below hbelow
    cases hflag : n.flag with
    | sound => exact absurd hflag fault
    | missing =>
      rw [describes.missing hflag]
      simp [ht.newline_not_mem_kind]
    | error =>
      rw [describes.unexpected hflag]
      exact newline_not_mem_quotation n.text (by decide) (by decide)

theorem newline_not_mem_complaint {n : Node} {stage : Stage} {fault : LayoutFault}
    (h : stage.next n = .error fault) : '\n' ∉ fault.message := by
  rcases Stage.of_next_eq_error h with ⟨-, rfl⟩ | ⟨-, -, rfl⟩ | ⟨-, -, rfl⟩ | ⟨-, -, -, rfl⟩
  · exact newline_not_mem_quotation n.text (by decide) (by decide)
  · decide
  · decide
  · exact newline_not_mem_quotation n.text (by decide) (by decide)

theorem newline_not_mem_layoutFault {stage : Stage} {ns : List Node} {f : Located LayoutFault}
    (h : layoutFaultFrom stage ns = some f) : '\n' ∉ f.cause.message := by
  obtain ⟨_, _, _, _, -, -, hnext, -⟩ := exists_of_layoutFaultFrom h
  exact newline_not_mem_complaint hnext

namespace Index

variable {o : Options} {source path message : List Char} {e : Error}

theorem count_faultMessage (line : UInt32) (h : '\n' ∉ message) :
    (faultMessage path line message).count '\n' = path.count '\n' := by
  have hline : '\n' ∉ Text.decimal line.toNat := Text.not_mem_decimal (by decide)
  simp [faultMessage, List.count_eq_zero.mpr h, List.count_eq_zero.mpr hline]

/-- What is said of a file has the line breaks of its path and no other. -/
theorem count_message (h : ofSource o source = .error e) :
    (e.message path).count '\n' = path.count '\n' := by
  rw [ofSource, ofTree] at h
  split at h
  · next f hf =>
    cases h
    exact count_faultMessage f.line (newline_not_mem_syntaxFault hf)
  · split at h
    · cases h
      simp [Error.message]
    · split at h
      · next f hf =>
        cases h
        exact count_faultMessage f.line (newline_not_mem_layoutFault hf)
      · cases h

end Index

/-! ## The diagnostic of a run -/

/-- The answers of the system to a failed reading are single lines. -/
def Host.PlainErrors (h : Host) : Prop := ∀ path e, h.read path = .error e → '\n' ∉ e.message

theorem Directory.follow_eq_error {d : Directory} {place rest : List Text.Bytes} {e : ReadError}
    (h : d.follow place rest = .error e) : e = .notDirectory ∨ e = .notFound := by
  fun_induction Directory.follow d place rest with
  | case1 => cases h
  | case2 => exact Or.inl (Except.error.inj h).symm
  | case3 _ _ _ _ _ ih => exact ih h
  | case4 _ _ _ _ _ _ ih => exact ih h
  | case5 _ _ _ _ _ _ _ ih => exact ih h
  | case6 => exact Or.inr (Except.error.inj h).symm

theorem Host.plainErrors_ofDirectory (d : Directory) (environment : List (List Char × List Char)) :
    (Host.ofDirectory d environment).PlainErrors := by
  intro path e h
  change d.read path = .error e at h
  rw [Directory.read] at h
  split at h
  · cases h
    decide
  · split at h
    · cases h
      decide
    · extract_lets start at h
      split at h
      · next hfollow =>
        cases h
        rcases Directory.follow_eq_error hfollow with rfl | rfl <;> decide
      · split at h
        · cases h
        · cases h
          decide

namespace CommandLine

open Text (Bytes)

variable {h : Host} {arguments : List Bytes} {j : Job} {e : FileError}

theorem FileError.count_message (hplain : h.PlainErrors) (he : j.index h = .error e) :
    (e.message j.label).count '\n' = j.label.count '\n' := by
  rw [Job.index, Job.sourceText] at he
  cases hread : h.read j.src with
  | error failure =>
    rw [hread] at he
    cases he
    simp [FileError.message, List.count_eq_zero.mpr (hplain _ _ hread)]
  | ok bytes =>
    rw [hread] at he
    cases htext : Text.decode? bytes with
    | none =>
      simp only [htext] at he
      cases he
      simp [FileError.message]
    | some text =>
      simp only [htext] at he
      cases hsource : Index.ofSource j.options text with
      | ok i =>
        rw [hsource] at he
        cases he
      | error cause =>
        rw [hsource] at he
        cases he
        exact Index.count_message hsource

/-- A run whose file has no index writes `err = `, the message and a line break. The line breaks of that are
those of the path, as it is shown, and the last one: if the path has none, it is a single line. -/
theorem output_of_failed (hplain : h.PlainErrors) (hjob : Resolves h arguments j)
    (he : j.index h = .error e) (program : List Char) :
    (run h arguments).output program = "err = ".toList ++ e.message j.label ++ ['\n']
      ∧ ((run h arguments).output program).count '\n' = 1 + j.label.count '\n'
      ∧ ('\n' ∉ j.label → '\n' ∉ "err = ".toList ++ e.message j.label) := by
  have hrun : run h arguments = .failed j e := run_eq_iff.mpr (.failed hjob he)
  have hcount := FileError.count_message hplain he
  have houtput : (run h arguments).output program = "err = ".toList ++ e.message j.label ++ ['\n'] := by
    rw [hrun]
    rfl
  refine ⟨houtput, ?_, ?_⟩
  · rw [houtput]
    simp [hcount, Nat.add_comm]
  · intro hlabel
    rw [List.count_eq_zero.mpr hlabel, List.count_eq_zero] at hcount
    simp [hcount]

/-- A file with a statement of three lines, under a name of two lines. -/
def statementHost : Host :=
  .ofDirectory ⟨bytesOf "/w", [([bytesOf "a\nb.go"],
    some (Text.encode "package p\nfor \x7b\n\tf()\n\x7d\n".toList))]⟩ []

def statementJob : Job := ⟨bytesOf "a\nb.go", .csv, {}, none⟩

def statementError : FileError :=
  .notIndexed (.layoutFault ⟨2, .notDeclaration "for \x7b".toList⟩)

theorem resolves_statement :
    Resolves statementHost [bytesOf "-src", bytesOf "a\nb.go"] statementJob := by
  refine ⟨{ src := some (bytesOf "a\nb.go") }, default, ?_, ?_, ?_⟩ <;> decide +kernel

theorem index_statement : statementJob.index statementHost = .error statementError := by
  decide +kernel

/-- The diagnostic ends with the second of two lines: the path has a line break, the statement shows none. -/
theorem output_of_failed_statement :
    statementHost.PlainErrors
      ∧ Resolves statementHost [bytesOf "-src", bytesOf "a\nb.go"] statementJob
      ∧ statementJob.index statementHost = .error statementError
      ∧ (run statementHost [bytesOf "-src", bytesOf "a\nb.go"]).output []
        = "err = ".toList ++ statementError.message statementJob.label ++ ['\n']
      ∧ ((run statementHost [bytesOf "-src", bytesOf "a\nb.go"]).output []).count '\n'
        = 1 + statementJob.label.count '\n'
      ∧ ('\n' ∉ statementJob.label
        → '\n' ∉ "err = ".toList ++ statementError.message statementJob.label) :=
  have hplain : statementHost.PlainErrors := Host.plainErrors_ofDirectory _ _
  ⟨hplain, resolves_statement, index_statement,
    output_of_failed hplain resolves_statement index_statement []⟩

end CommandLine

end SpanIndex
