import SpanIndex.Host
import SpanIndex.Settings.Environment
import SpanIndex.Settings.Output
import SpanIndex.Toml.Read

/-!
# Loading settings

There are five layers of settings, and each goes on top of the ones before it: what is built in, the file of the
user, the file of the project, a file named on the command line, and the environment. Only the merged settings
are checked, but every file that is there has to be TOML.
-/

namespace SpanIndex.Settings

/-- Why there are no settings. -/
inductive LoadError where
  /-- The file named on the command line is not there. -/
  | missingFile (path : Path)
  /-- A file is not TOML. -/
  | malformed
  | misfit (m : Misfit)
deriving DecidableEq, Inhabited

/-- What is said of settings that cannot be loaded. Files that are not TOML have no fixed text. -/
def LoadError.message? : LoadError → Option (List Char)
  | .missingFile path =>
    some ("Configuration file '".toList ++ Text.decodeLossy path ++ "' does not exist".toList)
  | .malformed => none
  | .misfit m => some ("Configuration error: ".toList ++ m.message)

/-! ## Files -/

/-- The file of the project. -/
def projectFile : Path := Text.encode ".declmap/config.toml".toList

/-- The directory of the user's settings: `XDG_CONFIG_HOME`, if that is an absolute path, else `.config` in the
home directory. -/
def userDirectory? (h : Host) : Option Path :=
  let home := match h.textOf? "HOME" with
    | some (c :: cs) => some (Path.join (Text.encode (c :: cs)) (Text.encode ".config".toList))
    | _ => none
  match h.textOf? "XDG_CONFIG_HOME" with
  | some text => if Path.isAbsolute (Text.encode text) then some (Text.encode text) else home
  | none => home

/-- The file of the user. -/
def userFile? (h : Host) : Option Path :=
  (userDirectory? h).map fun d => Path.join d (Text.encode "declmap/config.toml".toList)

/-- The settings in the text of a file. -/
def entriesOfText (o : Origin) (bytes : Text.Bytes) : Option Entries :=
  (Text.decode? bytes).bind fun text => (Toml.read text).map (entriesOfToml o)

/-- The settings of a file; a file that cannot be read has none. -/
def fileEntries (h : Host) (path : Path) : Except LoadError Entries :=
  match h.read path with
  | .error _ => .ok []
  | .ok bytes => match entriesOfText (.file (Path.label h.workingDirectory path)) bytes with
    | some entries => .ok entries
    | none => .error .malformed

/-- The settings of a file that may not be asked for. -/
def optionalEntries (h : Host) : Option Path → Except LoadError Entries
  | none => .ok []
  | some path => fileEntries h path

/-! ## Layers -/

/-- The settings that are built in. -/
def builtInEntries : Entries :=
  [(sectionKey, .table .builtIn
    [(formatKey, .scalar .builtIn (.string "csv".toList)),
     (taxonomyKey, .scalar .builtIn (.string "detailed".toList)),
     (qualifyKey, .scalar .builtIn (.bool true))])]

/-- Puts layers on top of each other, the lowest first. -/
def stack (layers : List Entries) : Entries := layers.foldl mergeEntries []

/-- Whether a file named on the command line is there. -/
def isPresent (h : Host) : Option Path → Bool
  | none => true
  | some path => match h.read path with
    | .ok _ => true
    | .error _ => false

/-- The layers, the lowest first. -/
def layers (h : Host) (named : Option Path) : Except LoadError (List Entries) := do
  let user ← optionalEntries h (userFile? h)
  let project ← fileEntries h projectFile
  let named ← optionalEntries h named
  return [builtInEntries, user, project, named, environmentEntries h.environment]

/-- Loads the settings. `named` is the file that the command line names. -/
def load (h : Host) (named : Option Path) : Except LoadError OutputSettings :=
  if isPresent h named then
    match layers h named with
    | .error e => .error e
    | .ok layers => match OutputSettings.ofEntries (stack layers) with
      | .ok s => .ok s
      | .error m => .error (.misfit m)
  else .error (.missingFile (named.getD []))

end SpanIndex.Settings
