import SpanIndex.CommandLine.Run

/-!
# The program

Reads what a run may need from the system, does the run and writes what it says. Every decision is made by
`CommandLine.run`.
-/

namespace SpanIndex.Main

open Text (Bytes)

/-- The error with a number, which may also be given as the negated number. -/
def readErrorOfCode (code : UInt32) (text : String) : ReadError :=
  let code := if code < 0x80000000 then code else 0 - code
  if code = 20 then .notDirectory
  else if code = 21 then .isDirectory
  else .other (text ++ " (os error " ++ toString code ++ ")").toList

/-- What the system says of a file that it cannot read. -/
def readErrorOf : IO.Error → ReadError
  | .noFileOrDirectory .. => .notFound
  | .inappropriateType _ code text | .resourceExhausted _ code text
  | .permissionDenied _ code text | .noSuchThing _ code text | .otherError code text =>
    readErrorOfCode code text
  | e => .other (toString e).toList

/-- Reads a file. -/
def readFile (path : Path) : IO (Except ReadError Bytes) := do
  if path.contains 0 then return .error .zeroByte
  let some name := Text.decode? path | return .error .notFound
  try
    return .ok (← IO.FS.readBinFile (String.ofList name)).toList
  catch e => return .error (readErrorOf e)

/-- Cuts bytes at every zero byte. -/
def cutAtZero (bytes : Bytes) : List Bytes :=
  bytes.foldr (fun b parts =>
    if b = 0 then [] :: parts
    else match parts with
      | [] => [[b]]
      | part :: rest => (b :: part) :: rest) [[]]

/-- A variable, from the form `name=value`. -/
def variableOf? (entry : Bytes) : Option (List Char × List Char) :=
  (Text.decode? entry).bind fun text =>
    match text.span (· != '=') with
    | (name, _ :: value) => some (name, value)
    | (_, []) => none

/-- The variables of the environment. -/
def environment : IO (List (List Char × List Char)) := do
  match ← readFile (Text.encode "/proc/self/environ".toList) with
  | .ok block => return (cutAtZero block).filterMap variableOf?
  | .error _ => return []

/-- A host with the files that a run may read. -/
def hostFor (arguments : List Bytes) : IO Host := do
  let directory := Text.encode (← IO.currentDir).toString.toList
  let bare : Host := ⟨fun _ => .error .notFound, ← environment, directory⟩
  let files ← (CommandLine.filesOf bare arguments).mapM fun path =>
    return (path, ← readFile path)
  return { bare with read := fun path => (files.lookup path).getD (.error .notFound) }

/-- Does a run. The result is the exit code. -/
def perform (arguments : List Bytes) : IO UInt32 := do
  let program := (← IO.appPath).fileName.getD "declmap"
  let host ← hostFor arguments
  let outcome := CommandLine.run host arguments
  for line in CommandLine.diagnostics host arguments do
    IO.eprintln (String.ofList line)
  let stdout ← IO.getStdout
  stdout.putStr (String.ofList (outcome.output program.toList))
  stdout.flush
  return UInt32.ofNat outcome.exitCode

end SpanIndex.Main

def main (arguments : List String) : IO UInt32 :=
  SpanIndex.Main.perform (arguments.map fun a => SpanIndex.Text.encode a.toList)
