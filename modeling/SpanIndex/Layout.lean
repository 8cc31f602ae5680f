import SpanIndex.Syntax.Node
import SpanIndex.Text.Blank

/-!
# Faults in a source file

Two checks stand before an index is made. `firstSyntaxFault` looks for a node that does not fit the
grammar, anywhere in the tree. `firstLayoutFault` looks at the order of what stands at file scope: one
package clause, then imports, then other declarations.

Both report the first fault in the order of the text.
-/

namespace SpanIndex

open Syntax (Node)

/-- A fault, and the line where it was found. -/
structure Located (α : Type) where
  line : UInt32
  cause : α
deriving DecidableEq, Inhabited

/-- The line, counted from 1, of a row counted from 0. -/
def lineOfRow (row : Nat) : UInt32 := UInt32.ofNat row + 1

/-- The line that a node begins in. -/
def Syntax.Node.startLine (n : Node) : UInt32 := lineOfRow n.startRow

/-- The line that a node ends in. -/
def Syntax.Node.endLine (n : Node) : UInt32 := lineOfRow n.endRow

/-! ## Snippets -/

/-- A snippet has at most so many characters. -/
def snippetLength : Nat := 24

/-- The beginning of the first line of a text, as quoted in a message. -/
def snippet (text : List Char) : List Char :=
  (Text.trim (text.takeWhile (· != '\n'))).take snippetLength

/-! ## Nodes that do not fit -/

/-- What is wrong with a node. -/
inductive SyntaxFault where
  | missing (kind : String)
  | unexpected (snippet : List Char)
deriving DecidableEq, Inhabited

def SyntaxFault.message : SyntaxFault → List Char
  | .missing kind => "missing `".toList ++ kind.toList ++ "`".toList
  | .unexpected snippet => "unexpected `".toList ++ snippet ++ "`".toList

mutual

/-- The first node with a fault, from the node itself on. -/
def faultIn : Node → Option (Located SyntaxFault)
  | .mk kind _ flag _ startRow _ text children =>
    match flag with
    | .missing => some ⟨lineOfRow startRow, .missing kind⟩
    | .error => some ⟨lineOfRow startRow, .unexpected (snippet text)⟩
    | .sound => faultAmong children

/-- The first node with a fault in a list of trees. -/
def faultAmong : List Node → Option (Located SyntaxFault)
  | [] => none
  | n :: ns => match faultIn n with
    | some fault => some fault
    | none => faultAmong ns

end

/-- The first node with a fault below the root of a tree. -/
def firstSyntaxFault (root : Node) : Option (Located SyntaxFault) := faultAmong root.children

/-! ## The order of declarations -/

/-- What is wrong with the order of nodes at file scope. -/
inductive LayoutFault where
  | secondPackage
  | beforePackage (snippet : List Char)
  | lateImport
  | notDeclaration (snippet : List Char)
deriving DecidableEq, Inhabited

def LayoutFault.message : LayoutFault → List Char
  | .secondPackage => "expected declaration, found `package`".toList
  | .beforePackage snippet => "expected `package`, found `".toList ++ snippet ++ "`".toList
  | .lateImport => "imports must appear before other declarations".toList
  | .notDeclaration snippet =>
    "non-declaration statement outside function body: `".toList ++ snippet ++ "`".toList

/-- The nodes whose order matters: phrases, but not comments. -/
def Syntax.Node.phrases (n : Node) : List Node :=
  n.children.filter fun c => c.named && !c.isComment

/-- What stands at file scope, as far as the order is concerned. -/
inductive Part where
  | package | imports | declaration | other
deriving DecidableEq, Inhabited

def Part.ofKind (kind : String) : Part :=
  if kind = "package_clause" then .package
  else if kind = "import_declaration" then .imports
  else if kind = "const_declaration" ∨ kind = "type_declaration" ∨ kind = "var_declaration"
      ∨ kind = "function_declaration" ∨ kind = "method_declaration" then .declaration
  else .other

/-- How far the file has got. -/
inductive Stage where
  | beforePackage | inImports | inDeclarations
deriving DecidableEq, Inhabited

/-- The fault of a node at a given stage, or the next stage. -/
def Stage.next (n : Node) : Stage → Except LayoutFault Stage
  | .beforePackage => match Part.ofKind n.kind with
    | .package => .ok .inImports
    | _ => .error (.beforePackage (snippet n.text))
  | .inImports => match Part.ofKind n.kind with
    | .package => .error .secondPackage
    | .imports => .ok .inImports
    | .declaration => .ok .inDeclarations
    | .other => .error (.notDeclaration (snippet n.text))
  | .inDeclarations => match Part.ofKind n.kind with
    | .package => .error .secondPackage
    | .imports => .error .lateImport
    | .declaration => .ok .inDeclarations
    | .other => .error (.notDeclaration (snippet n.text))

/-- The first node out of order, from a stage on. -/
def layoutFaultFrom : Stage → List Node → Option (Located LayoutFault)
  | _, [] => none
  | stage, n :: ns => match stage.next n with
    | .ok stage => layoutFaultFrom stage ns
    | .error fault => some ⟨n.startLine, fault⟩

/-- The first node at file scope that is out of order. -/
def firstLayoutFault (root : Node) : Option (Located LayoutFault) :=
  layoutFaultFrom .beforePackage root.phrases

end SpanIndex
