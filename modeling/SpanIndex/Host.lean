import SpanIndex.Text.Utf8

/-!
# What a run can see of the system

A run depends on the files that it can read, the variables of its environment and the directory that it runs in.
A `Host` holds these three. Files are given by a function from paths, so a run is itself a function and every
statement about it can be made for all files.
-/

namespace SpanIndex

open Text (Bytes)

/-- A path is any sequence of bytes. -/
abbrev Path := Bytes

/-- Why a file cannot be read. -/
inductive ReadError where
  | notFound
  | isDirectory
  | notDirectory
  /-- A path with a zero byte names no file. -/
  | zeroByte
  /-- Any other answer of the system. -/
  | other (text : List Char)
deriving DecidableEq, Inhabited

def ReadError.message : ReadError → List Char
  | .notFound => "No such file or directory (os error 2)".toList
  | .isDirectory => "Is a directory (os error 21)".toList
  | .notDirectory => "Not a directory (os error 20)".toList
  | .zeroByte => "file name contained an unexpected NUL byte".toList
  | .other text => text

/-- What a run can see of the system. -/
structure Host where
  read : Path → Except ReadError Bytes
  environment : List (List Char × List Char)
  workingDirectory : Path

namespace Host

/-- The text of a variable. -/
def textOf? (h : Host) (name : String) : Option (List Char) :=
  h.environment.lookup name.toList

end Host

namespace Path

/-- The byte between the parts of a path. -/
def slash : UInt8 := 47

def isAbsolute (p : Path) : Bool := p.head? == some slash

/-- A path inside a directory. -/
def join (directory p : Path) : Path :=
  if isAbsolute p then p
  else if directory.getLast? == some slash || directory.isEmpty then directory ++ p
  else directory ++ slash :: p

/-- Cuts a path at every slash. -/
def split : Path → List Bytes
  | [] => [[]]
  | b :: bs =>
    if b = slash then [] :: split bs
    else match split bs with
      | [] => [[b]]
      | part :: parts => (b :: part) :: parts

/-- The parts of a path that lead somewhere: empty ones and single points do not. -/
def parts (p : Path) : List Bytes := (split p).filter fun part => !part.isEmpty && part != [46]

/-- Takes a common beginning away from two lists of parts. -/
def dropCommon : List Bytes → List Bytes → List Bytes × List Bytes
  | a :: as, b :: bs => if a = b then dropCommon as bs else (a :: as, b :: bs)
  | as, bs => (as, bs)

/-- How a file is shown: by its path from the working directory, if that has fewer parts than the path from
the root. -/
def label (workingDirectory p : Path) : List Char :=
  let full := join workingDirectory p
  let (rest, up) := dropCommon (parts full) (parts workingDirectory)
  let relative := up.map (fun _ => [46, 46]) ++ rest
  if relative.length ≤ (parts full).length then
    Text.decodeLossy ([slash].intercalate relative)
  else Text.decodeLossy full

end Path

end SpanIndex
