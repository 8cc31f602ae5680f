import SpanIndex.Proofs.LineQuery
import SpanIndex.Proofs.Precedence

/-!
# The log does not interfere

How much is logged is chosen by the switches `quiet` and `verbose` and by the variable `DECLMAP_LOG`. That variable
also looks like a setting, since the names of settings in the environment begin in the same way; but its value goes
under a key that is never looked at, whatever it is read as. So two runs that differ only in these three end
alike.
-/

namespace SpanIndex

open Settings (Entries LoadError)

/-! ## Runs that differ in what is logged -/

/-- The variable that holds the filter of the log. -/
def logVariable : List Char := "DECLMAP_LOG".toList

/-- Two hosts with the same files, whose environments differ at most in the filter of the log. -/
structure Host.SameButLog (h h' : Host) : Prop where
  read_eq : h.read = h'.read
  workingDirectory_eq : h.workingDirectory = h'.workingDirectory
  environment_eq : h.environment.filter (·.1 != logVariable)
    = h'.environment.filter (·.1 != logVariable)

/-- Arguments that differ at most in how much is logged. -/
def CommandLine.Arguments.SameButLog (a a' : CommandLine.Arguments) : Prop :=
  { a with quiet := a'.quiet, verbose := a'.verbose } = a'

namespace Settings

/-- The filter of the log goes under a key of its own. -/
theorem pathOfName?_logVariable : pathOfName? logVariable = some ["log".toList] := by decide

section Load

variable {h h' : Host}

theorem textOf?_congr (hs : h.SameButLog h') {name : String} (hname : name.toList ≠ logVariable) :
    h.textOf? name = h'.textOf? name := by
  rw [Host.textOf?, Host.textOf?, ← Entries.lookup_filter_of_ne h.environment hname,
    ← Entries.lookup_filter_of_ne h'.environment hname, hs.environment_eq]

theorem userFile?_congr (hs : h.SameButLog h') : userFile? h = userFile? h' := by
  rw [userFile?, userFile?, userDirectory?, userDirectory?, textOf?_congr hs (by decide),
    textOf?_congr hs (by decide)]

theorem fileEntries_congr (hs : h.SameButLog h') (path : Path) :
    fileEntries h path = fileEntries h' path := by
  rw [fileEntries, fileEntries, hs.read_eq, hs.workingDirectory_eq]

theorem optionalEntries_congr (hs : h.SameButLog h') (path : Option Path) :
    optionalEntries h path = optionalEntries h' path := by
  cases path with
  | none => rfl
  | some path => exact fileEntries_congr hs path

/-- What the environment says of the section. -/
theorem lookup_environmentEntries_congr (hs : h.SameButLog h') :
    (environmentEntries h.environment).lookup sectionKey
      = (environmentEntries h'.environment).lookup sectionKey := by
  have hlog : ∀ x : List Char × List Char, (x.1 != logVariable) = false →
      ∀ ks, pathOfName? x.1 ≠ some (sectionKey :: ks) := by
    intro x hx ks hpath
    have hname : x.1 = logVariable := by simpa using hx
    rw [hname, pathOfName?_logVariable] at hpath
    have hkey : "log".toList = sectionKey := (List.cons.inj (Option.some.inj hpath)).1
    exact absurd hkey (by decide)
  rw [← lookup_environmentEntries_filter hlog h.environment,
    ← lookup_environmentEntries_filter hlog h'.environment, hs.environment_eq]

theorem layers_error_congr (hs : h.SameButLog h') {named : Option Path} {e : LoadError}
    (hls : layers h named = .error e) : layers h' named = .error e := by
  rw [layers] at hls ⊢
  rw [userFile?_congr hs, optionalEntries_congr hs, optionalEntries_congr hs,
    fileEntries_congr hs] at hls
  cases huser : optionalEntries h' (userFile? h') with
  | error e' =>
    rw [huser] at hls
    exact hls
  | ok user =>
    cases hproject : fileEntries h' projectFile with
    | error e' =>
      rw [huser, hproject] at hls
      exact hls
    | ok project =>
      cases hnamed : optionalEntries h' named with
      | error e' =>
        rw [huser, hproject, hnamed] at hls
        exact hls
      | ok explicit =>
        rw [huser, hproject, hnamed] at hls
        cases hls

/-- The layers are the same but for the uppermost, and that one says the same of the section. -/
theorem lookup_stack_congr (hs : h.SameButLog h') {named : Option Path} {ls : List Entries}
    (hls : layers h named = .ok ls) :
    ∃ ls', layers h' named = .ok ls'
      ∧ (stack ls).lookup sectionKey = (stack ls').lookup sectionKey := by
  have hd := distinct_of_layers hls
  obtain ⟨user, project, explicit, huser, hproject, hnamed, rfl⟩ := layers_eq_ok_iff.mp hls
  rw [userFile?_congr hs, optionalEntries_congr hs] at huser
  rw [fileEntries_congr hs] at hproject
  rw [optionalEntries_congr hs] at hnamed
  have hls' := layers_eq_ok_iff.mpr ⟨user, project, explicit, huser, hproject, hnamed, rfl⟩
  refine ⟨_, hls', ?_⟩
  rw [stack, stack, lookup_foldl_mergeEntries _ hd, lookup_foldl_mergeEntries _ (distinct_of_layers hls')]
  simp only [List.map_cons, lookup_environmentEntries_congr hs]

theorem load_congr (hs : h.SameButLog h') (named : Option Path) : load h named = load h' named := by
  have hpresent : isPresent h named = isPresent h' named := by
    unfold isPresent
    rw [hs.read_eq]
  cases hp : isPresent h named with
  | false => simp [load, ← hpresent, hp]
  | true =>
    cases hls : layers h named with
    | error e =>
      have hls' := layers_error_congr hs hls
      simp only [load, ← hpresent, hp, hls, hls']
    | ok ls =>
      obtain ⟨ls', hls', hsection⟩ := lookup_stack_congr hs hls
      rw [load_eq hp hls, load_eq (hpresent ▸ hp) hls', OutputSettings.ofEntries,
        OutputSettings.ofEntries, hsection]

end Load

end Settings

/-! ## How they end -/

namespace CommandLine

variable {h h' : Host} {a a' : Arguments}

theorem loadJob_congr (hs : h.SameButLog h') (ha : a.SameButLog a') : loadJob h a = loadJob h' a' := by
  rw [← ha, loadJob, loadJob, Settings.load_congr hs]
  rfl

theorem runJob_congr (hs : h.SameButLog h') (j : Job) : runJob h j = runJob h' j := by
  rw [runJob, runJob, Job.index, Job.index, Job.sourceText, Job.sourceText, hs.read_eq]

/-- Runs that differ at most in what is logged have the same output and the same exit code. -/
theorem run_sameButLog {arguments arguments' : List Text.Bytes} (hs : h.SameButLog h')
    (hread : Arguments.read arguments = .ok a) (hread' : Arguments.read arguments' = .ok a')
    (ha : a.SameButLog a') (program : List Char) :
    (run h arguments).output program = (run h' arguments').output program
      ∧ (run h arguments).exitCode = (run h' arguments').exitCode := by
  have hrun : run h arguments = run h' arguments' := by
    rw [run, run, hread, hread']
    change runWith h a = runWith h' a'
    rw [runWith_eq, runWith_eq, loadJob_congr hs ha]
    cases loadJob h' a' with
    | error e => rfl
    | ok j => exact runJob_congr hs j
  rw [hrun]
  exact ⟨rfl, rfl⟩

/-- The same files, with a filter that is read as a table of settings. -/
def loggingHost : Host :=
  { crowdedHost with environment := [(logVariable, "\x7boutput = \x7bformat = 1\x7d\x7d".toList)] }

theorem sameButLog_loggingHost : crowdedHost.SameButLog loggingHost := ⟨rfl, rfl, by decide⟩

theorem run_sameButLog_loggingHost :
    crowdedHost.SameButLog loggingHost
      ∧ Arguments.read [bytesOf "-src", bytesOf "p.go", bytesOf "-q"]
        = .ok { src := some (bytesOf "p.go"), quiet := true }
      ∧ Arguments.read [bytesOf "-vs=p.go"] = .ok { src := some (bytesOf "p.go"), verbose := true }
      ∧ (run crowdedHost [bytesOf "-src", bytesOf "p.go", bytesOf "-q"]).output []
        = (run loggingHost [bytesOf "-vs=p.go"]).output []
      ∧ (run crowdedHost [bytesOf "-src", bytesOf "p.go", bytesOf "-q"]).exitCode
        = (run loggingHost [bytesOf "-vs=p.go"]).exitCode := by
  have hread : Arguments.read [bytesOf "-src", bytesOf "p.go", bytesOf "-q"]
      = .ok { src := some (bytesOf "p.go"), quiet := true } := by decide +kernel
  have hread' : Arguments.read [bytesOf "-vs=p.go"]
      = .ok { src := some (bytesOf "p.go"), verbose := true } := by decide +kernel
  exact ⟨sameButLog_loggingHost, hread, hread', run_sameButLog sameButLog_loggingHost hread hread' rfl []⟩

end CommandLine

end SpanIndex
