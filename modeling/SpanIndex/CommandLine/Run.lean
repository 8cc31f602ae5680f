import SpanIndex.CommandLine.Arguments
import SpanIndex.CommandLine.Help
import SpanIndex.CommandLine.LogFilter
import SpanIndex.Settings.Load

/-!
# A run of the program

A run is a function of its arguments and its host. `Outcome` says how it ends; the exit code and the text on the
standard output follow from that. Beside it a run gives a list of events, of which the log shows those that its
filter lets pass.
-/

namespace SpanIndex.CommandLine

open Settings (LoadError OutputSettings)

/-! ## What is to be done -/

/-- A run whose settings are known. -/
structure Job where
  src : Path
  format : Format
  options : Options
  line : Option UInt32
deriving DecidableEq, Inhabited

/-- Arguments go before settings. -/
def Job.resolve (a : Arguments) (s : OutputSettings) : Job where
  src := a.path
  format := a.format.getD s.format
  options :=
    { taxonomy := a.taxonomy.getD s.options.taxonomy
      qualifyMethods := !a.noQualifyMethods && s.options.qualifyMethods }
  line := a.line

/-- Why a file has no index. -/
inductive FileError where
  | unreadable (e : ReadError)
  | notText
  | notIndexed (e : Index.Error)
deriving DecidableEq, Inhabited

/-- How the path of the source file is shown. -/
def Job.label (j : Job) : List Char := Text.decodeLossy j.src

def FileError.message (label : List Char) : FileError → List Char
  | .unreadable e => label ++ ": ".toList ++ e.message
  | .notText => label ++ ": stream did not contain valid UTF-8".toList
  | .notIndexed e => e.message label

/-- The text of the source file. -/
def Job.sourceText (h : Host) (j : Job) : Except FileError (List Char) :=
  match h.read j.src with
  | .error e => .error (.unreadable e)
  | .ok bytes => match Text.decode? bytes with
    | some text => .ok text
    | none => .error .notText

/-- The index of the source file. -/
def Job.index (h : Host) (j : Job) : Except FileError Index :=
  match j.sourceText h with
  | .error e => .error e
  | .ok text => (Index.ofSource j.options text).mapError .notIndexed

/-- The text of an index, or of the declaration at the line that is asked for. -/
def Job.render (j : Job) (i : Index) : List Char :=
  match j.line with
  | some line => j.format.renderAt i line
  | none => j.format.render i

/-! ## How a run ends -/

inductive Outcome where
  /-- The arguments ask for help or the version, or are refused. -/
  | stopped (s : Stop)
  /-- The settings could not be loaded. -/
  | notConfigured (e : LoadError)
  | failed (j : Job) (e : FileError)
  | done (j : Job) (i : Index)
deriving DecidableEq, Inhabited

/-- Runs a job. -/
def runJob (h : Host) (j : Job) : Outcome :=
  match j.index h with
  | .ok i => .done j i
  | .error e => .failed j e

/-- A run with given arguments. -/
def runWith (h : Host) (a : Arguments) : Outcome :=
  match Settings.load h a.config with
  | .error e => .notConfigured e
  | .ok s => runJob h (Job.resolve a s)

/-- A run. -/
def run (h : Host) (arguments : List Text.Bytes) : Outcome :=
  match Arguments.read arguments with
  | .error s => .stopped s
  | .ok a => runWith h a

/-- The diagnostic of a file without an index. -/
def diagnostic (j : Job) (e : FileError) : List Char :=
  "err = ".toList ++ e.message j.label ++ ['\n']

namespace Outcome

def exitCode : Outcome → Nat
  | .stopped .help | .stopped .version => 0
  | .stopped (.refused _) => 1
  | .notConfigured _ => 1
  | .failed .. => 2
  | .done .. => 0

/-- What is written to the standard output. -/
def output (program : List Char) : Outcome → List Char
  | .stopped .help => helpText program
  | .stopped .version => versionText
  | .stopped (.refused _) => []
  | .notConfigured _ => []
  | .failed j e => diagnostic j e
  | .done j i => j.render i

end Outcome

/-- What was being done when settings could not be loaded. -/
def configContext (a : Arguments) : List Char :=
  match a.config with
  | some path => "failed to load config file ".toList ++ Text.decodeLossy path
  | none => "failed to load declmap configuration".toList

/-- What is said of settings that could not be loaded, if that has a fixed text. -/
def configFailure? (a : Arguments) (e : LoadError) : Option (List Char) :=
  e.message?.map fun message =>
    let cause := match e with
      | .misfit m => ": ".toList ++ m.message
      | _ => []
    configContext a ++ ": ".toList ++ message ++ cause

/-! ## The log -/

inductive Event where
  | resolved (j : Job)
  | oddExtension (label : List Char)
  | oddReceiver (line : Nat)
  | classified (count : Nat)
  | indexed (label package : List Char) (count : Nat)
  | notIndexed (message : List Char)
deriving DecidableEq, Inhabited

/-- A format, as shown in the log. -/
def formatLabel : Format → String
  | .csv => "Csv"
  | .tsv => "Tsv"
  | .jsonl => "Jsonl"

/-- A taxonomy, as shown in the log. -/
def taxonomyLabel : Taxonomy → String
  | .detailed => "Detailed"
  | .legacy => "Legacy"

/-- A job, as shown in the log. -/
def Job.description (j : Job) : List Char :=
  "RunConfig \x7b src: ".toList ++ Text.quotedPath j.src
    ++ ", format: ".toList ++ (formatLabel j.format).toList
    ++ ", options: ClassifyOptions \x7b taxonomy: ".toList
    ++ (taxonomyLabel j.options.taxonomy).toList
    ++ ", qualify_methods: ".toList ++ (if j.options.qualifyMethods then "true" else "false").toList
    ++ " \x7d, line: ".toList
    ++ (match j.line with
      | some n => "Some(".toList ++ Text.decimal n.toNat ++ [')']
      | none => "None".toList)
    ++ " \x7d".toList

namespace Event

def level : Event → Level
  | .oddExtension _ => .warn
  | .oddReceiver _ => .trace
  | .resolved _ | .classified _ | .indexed .. | .notIndexed _ => .debug

/-- The part of the program that an event comes from. -/
def target : Event → String
  | .resolved _ => "declmap::bootstrap"
  | .oddExtension _ | .indexed .. => "declmap_parser::index"
  | .oddReceiver _ | .classified _ => "declmap_parser::classify"
  | .notIndexed _ => "declmap::commands::index"

def message : Event → String
  | .resolved _ => "resolved run configuration"
  | .oddExtension _ => "file does not have a .go extension, parsing as Go anyway"
  | .oddReceiver _ => "receiver is not a simple type name, reporting as function"
  | .classified _ => "classified top-level declarations"
  | .indexed .. => "indexed source"
  | .notIndexed _ => "source could not be indexed"

/-- The fields of an event, with their texts. -/
def fields : Event → List (String × List Char)
  | .resolved j => [("run", j.description)]
  | .oddExtension label => [("path", label)]
  | .oddReceiver line => [("line", Text.decimal line)]
  | .classified count => [("count", Text.decimal count)]
  | .indexed label package count =>
    [("path", label), ("package", package), ("declarations", Text.decimal count)]
  | .notIndexed message => [("error", message)]

/-- The line of an event in the log. -/
def logLine (e : Event) : List Char :=
  e.level.label.toList ++ ' ' :: e.target.toList ++ ": ".toList ++ e.message.toList
    ++ e.fields.flatMap fun f => ' ' :: f.1.toList ++ '=' :: f.2

/-- Whether a filter lets an event pass. The message counts as a field. -/
def passes (filter : LogFilter) (e : Event) : Bool :=
  filter.allows e.level e.target.toList ("message" :: e.fields.map (·.1))

end Event

/-- The events of a job. -/
def jobEvents (h : Host) (j : Job) : List Event :=
  let first := Event.resolved j
    :: if isSourcePath j.label then [] else [Event.oddExtension j.label]
  first ++ match j.sourceText h with
    | .error e => [.notIndexed (e.message j.label)]
    | .ok text =>
      let root := Syntax.rootOf text
      match Index.ofTree j.options root with
      | .error e => [.notIndexed (e.message j.label)]
      | .ok i =>
        (oddReceivers root).map (fun n => .oddReceiver (n.startRow + 1))
          ++ [.classified i.declarations.length,
            .indexed j.label i.package i.declarations.length]

/-- The events of a run with given arguments. -/
def events (h : Host) (a : Arguments) : List Event :=
  match Settings.load h a.config with
  | .error _ => []
  | .ok s => jobEvents h (Job.resolve a s)

/-- The filter of the log: what `DECLMAP_LOG` says, if that is a filter; else by the switches, of which `quiet`
goes first. -/
def logFilter (h : Host) (a : Arguments) : LogFilter :=
  let level := if a.quiet then .error else if a.verbose then .debug else .warn
  ((h.textOf? "DECLMAP_LOG").bind LogFilter.read).getD [⟨none, [], level⟩]

/-- The lines of the log. -/
def logLines (h : Host) (a : Arguments) : List (List Char) :=
  ((events h a).filter (·.passes (logFilter h a))).map Event.logLine

/-! ## Around a run -/

/-- The files that a run may read. -/
def filesOf (h : Host) (arguments : List Text.Bytes) : List Path :=
  match Arguments.read arguments with
  | .error _ => []
  | .ok a =>
    (Settings.userFile? h).toList ++ Settings.projectFile :: a.config.toList ++ [a.path]

/-- The lines that are written to the standard error stream. -/
def diagnostics (h : Host) (arguments : List Text.Bytes) : List (List Char) :=
  match Arguments.read arguments with
  | .error (.refused e) => ["error: ".toList ++ e.message.toList]
  | .error _ => []
  | .ok a =>
    logLines h a ++ match Settings.load h a.config with
      | .error e => ["declmap error: ".toList ++ (configFailure? a e).getD (configContext a)]
      | .ok _ => []

end SpanIndex.CommandLine
