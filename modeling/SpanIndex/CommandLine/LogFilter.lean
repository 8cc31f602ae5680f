import SpanIndex.Text.Alphanumeric
import SpanIndex.Text.Blank
import SpanIndex.Text.Decimal

/-!
# Which events are logged

A filter is a list of directives. `level` alone sets how much is logged; `target=level` sets it for the events
whose target begins with that text; `[{field}]=level` for those that have a field. For an event the most specific
directive counts, and of equal ones the last.

A directive can also name a span, or ask for the value of a field. There are no spans around the events here, so
such a directive has no effect; it only has to be well formed.
-/

namespace SpanIndex.CommandLine

/-- How important an event is; or, in a filter, how important it has to be. -/
inductive Level where
  | off | error | warn | info | debug | trace
deriving DecidableEq, Inhabited

namespace Level

/-- A filter at some level lets events of the levels up to it pass. -/
def rank : Level → Nat
  | .off => 0
  | .error => 1
  | .warn => 2
  | .info => 3
  | .debug => 4
  | .trace => 5

def label : Level → String
  | .off => "OFF"
  | .error => "ERROR"
  | .warn => "WARN"
  | .info => "INFO"
  | .debug => "DEBUG"
  | .trace => "TRACE"

def all : List Level := [.off, .error, .warn, .info, .debug, .trace]

/-- Reads a level: its name in letters of any case, or its rank. -/
def ofText? (text : List Char) : Option Level :=
  match Text.readNat 5 text with
  | .ok n => all.find? (·.rank == n)
  | .error _ => all.find? fun l => l.label.toList == text.map Char.toUpper

end Level

/-- A directive of a filter. -/
structure Directive where
  target : Option (List Char) := none
  fields : List (List Char) := []
  level : Level := .trace
deriving DecidableEq, Inhabited

/-- The directives of a filter. -/
abbrev LogFilter := List Directive

namespace Directive

/-- Whether a directive speaks of the events with a given target and given fields. -/
def appliesTo (target : List Char) (fields : List String) (d : Directive) : Bool :=
  (match d.target with
    | some t => t.isPrefixOf target
    | none => true)
  && d.fields.all fun f => fields.any fun g => g.toList == f

/-- How specific a target is. -/
def targetWeight (d : Directive) : Nat :=
  match d.target with
  | some t => t.length + 1
  | none => 0

/-- Whether a directive is less specific than another one that applies to the same events. -/
def lessSpecific (a b : Directive) : Bool :=
  a.targetWeight < b.targetWeight
    || (a.targetWeight == b.targetWeight
      && (a.fields.length < b.fields.length
        || (a.fields.length == b.fields.length && decide (a.fields < b.fields))))

/-- Of two directives that apply to the same events, the one that counts. -/
def stronger (earlier later : Directive) : Directive :=
  if later.lessSpecific earlier then earlier else later

end Directive

/-- Whether a filter lets an event pass. -/
def LogFilter.allows (filter : LogFilter) (level : Level) (target : List Char)
    (fields : List String) : Bool :=
  match filter.filter (·.appliesTo target fields) with
  | [] => false
  | d :: ds => level.rank ≤ (ds.foldl Directive.stronger d).level.rank

/-! ## Reading filters -/

/-- Characters that a directive can begin with, other than a bracket. -/
def beginsDirective (c : Char) : Bool :=
  c == '-' || c == ':' || c == '_' || Text.isAlphanumeric c

/-- Reads the level after an equals sign. Where it is left out everything is logged. -/
def levelOrAll? : List Char → Option Level
  | [] => some .trace
  | text => Level.ofText? text

/-- A field that a directive asks for: its name, and whether a value is asked for too. -/
structure FieldTest where
  name : List Char
  hasValue : Bool

/-- Reads a field in a directive. -/
def fieldTest? (text : List Char) : Option FieldTest :=
  if text.isEmpty then none
  else some ⟨text.takeWhile (· != '='), text.contains '='⟩

/-- What follows the bracket that closes the part of a directive about spans. -/
def afterBracket? : List Char → Option Level
  | [] => some .trace
  | '=' :: text => levelOrAll? text
  | _ => none

/-- Reads the part of a directive about spans, after its opening bracket. The result is the directive, if it can have
an effect. -/
def readSpan (target : Option (List Char)) (text : List Char) : Option (Option Directive) :=
  let inName := fun c => c != ']' && c != '\x7b'
  let name := text.takeWhile inName
  match text.dropWhile inName with
  | ']' :: rest => (afterBracket? rest).map fun _ => none
  | '\x7b' :: rest =>
    let inside := rest.takeWhile (· != '\x7d')
    match fieldTest? inside, rest.dropWhile (· != '\x7d') with
    | some test, '\x7d' :: ']' :: rest => (afterBracket? rest).map fun level =>
      if name.isEmpty && !test.hasValue then some ⟨target, [test.name], level⟩ else none
    | _, _ => none
  | _ => none

/-- Reads a directive. The result is the directive, if it can have an effect. A word that is no level is a
target. -/
def readDirective (text : List Char) : Option (Option Directive) :=
  match text with
  | [] => none
  | '[' :: rest => readSpan none rest
  | c :: _ =>
    if beginsDirective c then
      let inWord := fun c => c != '=' && c != '['
      let word := text.takeWhile inWord
      match text.dropWhile inWord with
      | '=' :: rest => (levelOrAll? rest).map fun level => some ⟨some word, [], level⟩
      | '[' :: rest => readSpan (some word) rest
      | _ => match Level.ofText? text with
        | some level => some (some ⟨none, [], level⟩)
        | none => some (some ⟨some text, [], .trace⟩)
    else none

/-- Whether a directive sets a level. An equals sign in braces belongs to a field. -/
def setsLevel (text : List Char) : Bool :=
  (text.takeWhile (· != '\x7b') ++ text.dropWhile (· != '\x7d')).contains '='

/-- Reads a directive that may have white space around it. The white space belongs to what it stands beside: there it
makes a target that no event has, or a level that there is not. Only after a closing bracket it is harmless. -/
def readPadded (text : List Char) : Option (Option Directive) :=
  let word := Text.trim text
  let isPlain := word = text || (word.isPrefixOf text && word.getLast? == some ']')
  if isPlain then readDirective word
  else match readDirective word with
    | none => none
    | some _ => if setsLevel word then none else some none

/-- Cuts a text at every comma. -/
def splitCommas : List Char → List (List Char)
  | [] => [[]]
  | c :: cs =>
    if c = ',' then [] :: splitCommas cs
    else match splitCommas cs with
      | [] => [[c]]
      | part :: parts => (c :: part) :: parts

/-- Reads a filter. One without directives lets errors pass. -/
def LogFilter.read (text : List Char) : Option LogFilter :=
  match (splitCommas text).filter fun part => !part.isEmpty with
  | [] => some [⟨none, [], .error⟩]
  | parts => (parts.mapM readPadded).map fun ds => ds.filterMap id

end SpanIndex.CommandLine
