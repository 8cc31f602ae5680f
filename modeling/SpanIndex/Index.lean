import SpanIndex.Declaration.Classify

/-!
# The index of a source file

An `Index` holds the package name of a file and the records of its declarations in the order of the
text. A file with a fault has no index: `Index.Error` says which fault it was. A node that does not fit
the grammar comes first, then a package clause that is not there, then the order of the declarations.
-/

namespace SpanIndex

open Syntax (Node)

/-- The declarations of a file. -/
structure Index where
  package : List Char
  declarations : List Record
deriving DecidableEq, Inhabited

namespace Index

/-- The index of nothing. -/
def empty : Index := ⟨[], []⟩

/-- The first declaration that covers a line. -/
def declarationAt (i : Index) (line : UInt32) : Option Record :=
  i.declarations.find? (·.contains line)

/-- Adds a record at the end. -/
def append (i : Index) (r : Record) : Index := { i with declarations := i.declarations ++ [r] }

/-- Why a file has no index. -/
inductive Error where
  | syntaxFault (f : Located SyntaxFault)
  | missingPackage
  | layoutFault (f : Located LayoutFault)
deriving DecidableEq, Inhabited

/-- What is said of a fault in a line. -/
def faultMessage (path : List Char) (line : UInt32) (message : List Char) : List Char :=
  path ++ ':' :: Text.decimal line.toNat ++ ": syntax error: ".toList ++ message

/-- What is said of a file without an index. -/
def Error.message (path : List Char) : Error → List Char
  | .syntaxFault f => faultMessage path f.line f.cause.message
  | .missingPackage => path ++ ":1:1: expected 'package' clause".toList
  | .layoutFault f => faultMessage path f.line f.cause.message

/-- The index of a file with a given syntax tree. -/
def ofTree (o : Options) (root : Node) : Except Error Index :=
  match firstSyntaxFault root with
  | some fault => .error (.syntaxFault fault)
  | none =>
    match packageName? root with
    | none => .error .missingPackage
    | some package =>
      match firstLayoutFault root with
      | some fault => .error (.layoutFault fault)
      | none => .ok ⟨package, classify o root⟩

/-- The index of a source text. -/
def ofSource (o : Options) (source : List Char) : Except Error Index :=
  ofTree o (Syntax.rootOf source)

end Index

/-- Whether a path names a source file: it ends in `.go`. -/
def isSourcePath (path : List Char) : Bool :=
  path.contains '.' && path.reverse.takeWhile (· != '.') == "og".toList

end SpanIndex
