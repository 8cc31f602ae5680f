import SpanIndex.Host

/-!
# Files in memory

A `Directory` is a working directory with given files and directories in it. Paths are followed part by part, from
the root or from the working directory. Everything outside of it is missing, except the directories around it.
-/

namespace SpanIndex

open Text (Bytes)

/-- The files and directories below a working directory. -/
structure Directory where
  location : Path
  /-- The parts of a path from the working directory, and the content of a file. -/
  entries : List (List Bytes × Option Bytes)

namespace Directory

/-- All entries, with their parts from the root. -/
def absoluteEntries (d : Directory) : List (List Bytes × Option Bytes) :=
  (Path.parts d.location, none) :: d.entries.map fun e => (Path.parts d.location ++ e.1, e.2)

/-- The content of the file at some parts. -/
def fileAt? (d : Directory) (parts : List Bytes) : Option Bytes :=
  (d.absoluteEntries.find? fun e => e.1 == parts).bind (·.2)

/-- Whether there is something at some parts: an entry, or a directory around one. -/
def has (d : Directory) (parts : List Bytes) : Bool :=
  d.absoluteEntries.any fun e => parts.isPrefixOf e.1

/-- Follows the rest of a path from some parts on. What a path goes through has to be a directory. -/
def follow (d : Directory) : List Bytes → List Bytes → Except ReadError (List Bytes)
  | place, [] => .ok place
  | place, part :: rest =>
    if (d.fileAt? place).isSome then .error .notDirectory
    else if part.isEmpty || part == [46] then d.follow place rest
    else if part == [46, 46] then d.follow place.dropLast rest
    else if d.has (place ++ [part]) then d.follow (place ++ [part]) rest
    else .error .notFound

/-- Reads a file. -/
def read (d : Directory) (path : Path) : Except ReadError Bytes :=
  if path.contains 0 then .error .zeroByte
  else if path.isEmpty then .error .notFound
  else
    let start := if Path.isAbsolute path then [] else Path.parts d.location
    match d.follow start (Path.split path) with
    | .error e => .error e
    | .ok place => match d.fileAt? place with
      | some content => .ok content
      | none => .error .isDirectory

end Directory

/-- A host with files in memory. -/
def Host.ofDirectory (d : Directory) (environment : List (List Char × List Char)) : Host where
  read := d.read
  environment := environment
  workingDirectory := d.location

end SpanIndex
