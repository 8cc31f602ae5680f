import SpanIndex.Declaration.Record
import SpanIndex.Declaration.Taxonomy
import SpanIndex.Layout

/-!
# Classifying declarations

Every phrase at file scope other than comments and package clauses gives one record. The kind comes from
the node, and for a method also from its receiver: a method whose receiver is not a plain type name, or
a pointer to one, is reported as a function.
-/

namespace SpanIndex

open Syntax (Node Field)

/-- How declarations are reported. -/
structure Options where
  taxonomy : Taxonomy := .detailed
  /-- Whether the name of a method has its receiver before it. -/
  qualifyMethods : Bool := true
deriving DecidableEq, Inhabited

/-! ## Names -/

/-- The name that a node itself gives. -/
def ownName? (n : Node) : Option (List Char) := (n.child? .name).map (·.text)

/-- Whether a node is one of the specs of a type declaration. -/
def isTypeSpec (n : Node) : Bool := n.kind == "type_spec" || n.kind == "type_alias"

/-- The name that the first spec of a type declaration gives. -/
def firstTypeName? (n : Node) : Option (List Char) := (n.children.find? isTypeSpec).bind ownName?

/-- Whether a node is one of the parameters of a parameter list. -/
def isParameter (n : Node) : Bool :=
  n.kind == "parameter_declaration" || n.kind == "variadic_parameter_declaration"

/-- What a pointer type points to; any other type is left alone. -/
def pointee? (type : Node) : Option Node :=
  if type.kind == "pointer_type" then type.phrases.head? else some type

/-- The name of a type that is a plain type name. -/
def plainTypeName? (type : Node) : Option (List Char) :=
  if type.kind == "type_identifier" then some type.text else none

/-- The type name of a list of parameters that is a receiver: one parameter, with a plain type name or a
pointer to one. -/
def receiverOfList? (list : Node) : Option (List Char) :=
  match list.children.filter isParameter with
  | [parameter] =>
    if parameter.kind == "parameter_declaration" then
      ((parameter.child? .type).bind pointee?).bind plainTypeName?
    else none
  | _ => none

/-- The type name of a method's receiver. -/
def receiver? (n : Node) : Option (List Char) := (n.child? .receiver).bind receiverOfList?

/-! ## Kinds -/

/-- The form of a node at file scope. -/
inductive Form where
  | group (k : GroupKeyword)
  | function
  | method
  | other
deriving DecidableEq, Inhabited

def Form.ofKind (kind : String) : Form :=
  match GroupKeyword.ofNodeKind? kind with
  | some k => .group k
  | none =>
    if kind = "function_declaration" then .function
    else if kind = "method_declaration" then .method
    else .other

/-- The name of a method with a given receiver. -/
def qualify (o : Options) (receiver : List Char) (name : List Char) : List Char :=
  if o.qualifyMethods then receiver ++ '.' :: name else name

/-- The kind and the name of a node at file scope. -/
def describe (o : Options) (n : Node) : Kind × Option (List Char) :=
  match Form.ofKind n.kind with
  | .group .type => (o.taxonomy.groupKind .type, firstTypeName? n)
  | .group k => (o.taxonomy.groupKind k, none)
  | .function => (.function, ownName? n)
  | .method => match receiver? n with
    | some receiver => (.method, (ownName? n).map (qualify o receiver))
    | none => (.function, ownName? n)
  | .other => (.unclassified, none)

/-- The record of a node at file scope. -/
def Record.ofNode (o : Options) (n : Node) : Record :=
  let (kind, name) := describe o n
  ⟨kind, n.startLine, n.endLine, name⟩

/-! ## Files -/

/-- The phrases that are reported. -/
def declarationNodes (root : Node) : List Node :=
  root.phrases.filter fun n => n.kind != "package_clause"

/-- The records of a file. -/
def classify (o : Options) (root : Node) : List Record :=
  (declarationNodes root).map (Record.ofNode o)

/-- The first child of a given kind. -/
def firstOfKind? (kind : String) (n : Node) : Option Node := n.children.find? (·.kind == kind)

/-- The name in the package clause of a file. -/
def packageName? (root : Node) : Option (List Char) :=
  ((firstOfKind? "package_clause" root).bind (firstOfKind? "package_identifier")).map (·.text)

/-- Whether a method is reported as a function. -/
def hasOddReceiver (n : Node) : Bool :=
  Form.ofKind n.kind == .method && (receiver? n).isNone

/-- The methods of a file that are reported as functions. -/
def oddReceivers (root : Node) : List Node := (declarationNodes root).filter hasOddReceiver

end SpanIndex
