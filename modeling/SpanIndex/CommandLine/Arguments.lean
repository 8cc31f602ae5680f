import SpanIndex.Format
import SpanIndex.Host

/-!
# Arguments

Arguments are sequences of bytes and are read from left to right. An option is given by a long name after two
dashes or a letter after one. Letters can be put together, and a value can follow its option in the same argument
or in the next one.

A value in an argument of its own is held back until the next option that is known, or the end of the
arguments. Only then is it seen whether the option was given before and whether the value can be used. So an
unknown argument in between is reported first.
-/

namespace SpanIndex.CommandLine

open Text (Bytes)

/-- Options with a value. -/
inductive Setting where
  | src | format | taxonomy | line | config
deriving DecidableEq, Inhabited

/-- Options without a value. -/
inductive Switch where
  | noQualifyMethods | quiet | verbose
deriving DecidableEq, Inhabited

/-- All options. -/
inductive Flag where
  | setting (s : Setting)
  | switch (s : Switch)
  | help
  | version
deriving DecidableEq, Inhabited

/-- The arguments of a run. -/
structure Arguments where
  src : Option Path := none
  format : Option Format := none
  taxonomy : Option Taxonomy := none
  noQualifyMethods : Bool := false
  line : Option UInt32 := none
  config : Option Path := none
  quiet : Bool := false
  verbose : Bool := false
deriving DecidableEq, Inhabited

/-- The path of the source file. Where none is given it is empty. -/
def Arguments.path (a : Arguments) : Path := a.src.getD []

/-- Why arguments are refused. -/
inductive UsageError where
  | unknownArgument
  /-- There is no value, or it is empty where it may not be. -/
  | invalidValue
  | valueValidation
  | invalidUtf8
  | argumentConflict
  | tooManyValues
deriving DecidableEq, Inhabited

def UsageError.message : UsageError → String
  | .unknownArgument => "unexpected argument"
  | .invalidValue => "a value is required but none was supplied"
  | .valueValidation => "invalid value"
  | .invalidUtf8 => "invalid UTF-8 was detected in one or more arguments"
  | .argumentConflict => "an argument cannot be used multiple times"
  | .tooManyValues => "unexpected value for an argument"

/-- Why reading stops. -/
inductive Stop where
  | help
  | version
  | refused (e : UsageError)
deriving DecidableEq, Inhabited

/-! ## Names of options -/

/-- The bytes of a name. -/
def bytesOf (s : String) : Bytes := Text.encode s.toList

/-- The option with a long name. -/
def longFlag? (name : Bytes) : Option Flag :=
  if name = bytesOf "src" then some (.setting .src)
  else if name = bytesOf "format" then some (.setting .format)
  else if name = bytesOf "taxonomy" then some (.setting .taxonomy)
  else if name = bytesOf "no-qualify-methods" then some (.switch .noQualifyMethods)
  else if name = bytesOf "line" then some (.setting .line)
  else if name = bytesOf "config" then some (.setting .config)
  else if name = bytesOf "quiet" then some (.switch .quiet)
  else if name = bytesOf "verbose" then some (.switch .verbose)
  else if name = bytesOf "help" then some .help
  else if name = bytesOf "version" then some .version
  else none

/-- The option with a letter. -/
def shortFlag? (b : UInt8) : Option Flag :=
  if [b] = bytesOf "s" then some (.setting .src)
  else if [b] = bytesOf "f" then some (.setting .format)
  else if [b] = bytesOf "t" then some (.setting .taxonomy)
  else if [b] = bytesOf "l" then some (.setting .line)
  else if [b] = bytesOf "c" then some (.setting .config)
  else if [b] = bytesOf "q" then some (.switch .quiet)
  else if [b] = bytesOf "v" then some (.switch .verbose)
  else if [b] = bytesOf "h" then some .help
  else if [b] = bytesOf "V" then some .version
  else none

/-! ## Values -/

/-- Reads a name of a choice. -/
def readChoice {α : Type} (ofName : List Char → Except (List Char) α) (value : Bytes) :
    Except UsageError α :=
  match Text.decode? value with
  | none => .error .invalidUtf8
  | some text => match ofName text with
    | .ok choice => .ok choice
    | .error _ => .error .valueValidation

/-- Reads the number of a line. Zero may have a minus sign. -/
def lineOfText (text : List Char) : Option UInt32 :=
  match text with
  | '-' :: c :: cs => match Text.readDigits 0 0 (c :: cs) with
    | .ok _ => some 0
    | .error _ => none
  | text => (Text.readLine text).toOption

/-- Reads the value of `line`. -/
def readLineValue (value : Bytes) : Except UsageError UInt32 :=
  match Text.decode? value with
  | none => .error .invalidUtf8
  | some text => match lineOfText text with
    | some n => .ok n
    | none => .error .valueValidation

namespace Arguments

/-- Whether an option has its value already. -/
def has (a : Arguments) : Setting → Bool
  | .src => a.src.isSome
  | .format => a.format.isSome
  | .taxonomy => a.taxonomy.isSome
  | .line => a.line.isSome
  | .config => a.config.isSome

/-- Gives an option its value. -/
def assign (a : Arguments) (s : Setting) (value : Bytes) : Except UsageError Arguments :=
  match s with
  | .src => .ok { a with src := some value }
  | .format => (readChoice Format.ofName value).map fun f => { a with format := some f }
  | .taxonomy => (readChoice Taxonomy.ofName value).map fun t => { a with taxonomy := some t }
  | .line => (readLineValue value).map fun n => { a with line := some n }
  | .config =>
    if value.isEmpty then .error .invalidValue else .ok { a with config := some value }

/-- Gives an option its value, which it may not have had before. -/
def give (a : Arguments) (s : Setting) (value : Bytes) : Except UsageError Arguments :=
  if a.has s then .error .argumentConflict else a.assign s value

/-- Turns a switch on. -/
def turnOn (a : Arguments) : Switch → Except UsageError Arguments
  | .noQualifyMethods =>
    if a.noQualifyMethods then .error .argumentConflict else .ok { a with noQualifyMethods := true }
  | .quiet => if a.quiet then .error .argumentConflict else .ok { a with quiet := true }
  | .verbose => if a.verbose then .error .argumentConflict else .ok { a with verbose := true }

end Arguments

/-! ## Reading -/

/-- An option whose value is held back. -/
inductive Pending where
  | nothing
  /-- The value has not come yet. -/
  | awaiting (s : Setting)
  | held (s : Setting) (value : Bytes)
deriving DecidableEq, Inhabited

/-- The arguments, as far as they have been read. -/
structure Progress where
  given : Arguments := {}
  pending : Pending := .nothing
deriving DecidableEq, Inhabited

def stopWith {α : Type} (e : UsageError) : Except Stop α := .error (.refused e)

/-- Gives the option that is held back its value. -/
def Progress.settle (p : Progress) : Except Stop Arguments :=
  match p.pending with
  | .nothing => .ok p.given
  | .awaiting _ => stopWith .invalidValue
  | .held s value => (p.given.give s value).mapError .refused

/-- Takes an option with a value in the same argument. -/
def Progress.attach (p : Progress) (s : Setting) (value : Bytes) : Except Stop Progress := do
  let given ← p.settle
  let given ← (given.give s value).mapError .refused
  return { given }

/-- Takes an option whose value is to come. -/
def Progress.await (p : Progress) (s : Setting) : Except Stop Progress := do
  return { given := ← p.settle, pending := .awaiting s }

/-- Takes an option without a value. -/
def Progress.trigger (p : Progress) (f : Flag) : Except Stop Progress := do
  let given ← p.settle
  match f with
  | .switch s => return { given := ← (given.turnOn s).mapError .refused }
  | .help => .error .help
  | .version => .error .version
  | .setting s => return { given, pending := .awaiting s }

def dash : UInt8 := 45
def equals : UInt8 := 61

/-- Takes an argument that begins with two dashes; `body` is what follows them. -/
def takeLong (p : Progress) (body : Bytes) : Except Stop Progress :=
  let name := body.takeWhile (· != equals)
  let value := body.drop name.length
  match longFlag? name, value with
  | none, _ => stopWith .unknownArgument
  | some (.setting s), _ :: value => p.attach s value
  | some (.setting s), [] => p.await s
  | some _, _ :: _ => stopWith .tooManyValues
  | some f, [] => p.trigger f

/-- Takes the letters of an argument that begins with one dash. -/
def takeShort : Progress → Bytes → Except Stop Progress
  | p, [] => .ok p
  | p, b :: rest => match shortFlag? b with
    | none => stopWith .unknownArgument
    | some (.setting s) => match rest with
      | [] => p.await s
      | c :: value => p.attach s (if c = equals then value else c :: value)
    | some f => do takeShort (← p.trigger f) rest

/-- Takes an argument that is no option: it is the value that is waited for, or else unknown. -/
def takeValue (p : Progress) (argument : Bytes) : Except Stop Progress :=
  match p.pending with
  | .awaiting s => .ok { p with pending := .held s argument }
  | _ => stopWith .unknownArgument

/-- Takes an argument other than two dashes. -/
def take (p : Progress) (argument : Bytes) : Except Stop Progress :=
  match argument with
  | a :: b :: rest =>
    if a = dash then if b = dash then takeLong p rest else takeShort p (b :: rest)
    else takeValue p argument
  | _ => takeValue p argument

/-- Reads arguments. Nothing may follow two dashes. -/
def readFrom : Progress → List Bytes → Except Stop Arguments
  | p, [] => p.settle
  | p, argument :: rest =>
    if argument = [dash, dash] then
      if rest.isEmpty then p.settle else stopWith .unknownArgument
    else match take p argument with
      | .ok p => readFrom p rest
      | .error stop => .error stop

/-- The option `src` may also be written with one dash. -/
def respell (argument : Bytes) : Bytes :=
  if (Text.decode? argument).isSome
      && (argument = bytesOf "-src" || (bytesOf "-src=").isPrefixOf argument) then
    dash :: argument
  else argument

/-- Reads the arguments of a run. -/
def Arguments.read (arguments : List Bytes) : Except Stop Arguments :=
  readFrom {} (arguments.map respell)

end SpanIndex.CommandLine
