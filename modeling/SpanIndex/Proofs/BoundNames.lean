import SpanIndex.Proofs.Receiver

/-!
# The names that declarations bind

A function and a method bind one name, a type declaration binds one for each type that it defines, and all other
declarations are reported without a name. In a file that has an index it can be read off the parts of each
declaration what it binds (`Declared.Written`). Its record is called by the name of the function or method, or by
that of the first type, and so it has no name just if the declaration is of another kind or an empty `type ()`.
-/

namespace SpanIndex

open Syntax (Node Category Field Stands)

/-! ## What a declaration binds -/

/-- A type that is defined in a type declaration, or another name for one. -/
structure TypeSpec where
  name : List Char
  isAlias : Bool
deriving DecidableEq

/-- What is bound by a declaration at file scope. -/
inductive Declared where
  | function (name : List Char)
  | method (header : MethodHeader)
  | types (specs : List TypeSpec)
  /-- Imports, constants and variables are reported without a name. -/
  | unnamed
deriving DecidableEq

/-- The node is a spec of a type declaration. Behind its name come type parameters, if there are any, and a type. -/
structure TypeSpec.Written (s : TypeSpec) (n : Node) : Prop where
  kind_eq : n.kind = if s.isAlias then "type_alias" else "type_spec"
  parts_eq : ∃ name rest, n.parts = name :: rest ∧ name.kind = "type_identifier" ∧ name.text = s.name

/-- The marks that end a spec. A newline ends one as well, but has no node. -/
def Syntax.Node.isSeparator (n : Node) : Bool := n.kind == ";" || n.kind == "\x00"

/-- The node declares the types: one of them, or none or more in parentheses. -/
inductive TypeSpec.Listed : List TypeSpec → Node → Prop
  | single {n keyword spec : Node} {s : TypeSpec} (kind_eq : n.kind = "type_declaration")
      (parts_eq : n.parts = [keyword, spec]) (keyword_eq : keyword.kind = "type") (written : s.Written spec) :
      Listed [s] n
  | empty {n keyword left right : Node} (kind_eq : n.kind = "type_declaration")
      (parts_eq : n.parts = [keyword, left, right]) (keyword_eq : keyword.kind = "type")
      (left_eq : left.kind = "(") (right_eq : right.kind = ")") : Listed [] n
  | group {n keyword left spec right : Node} {rest : List Node} {s : TypeSpec} {specs : List TypeSpec}
      (kind_eq : n.kind = "type_declaration") (parts_eq : n.parts = keyword :: left :: spec :: (rest ++ [right]))
      (keyword_eq : keyword.kind = "type") (left_eq : left.kind = "(") (right_eq : right.kind = ")")
      (first : s.Written spec)
      (more : List.Forall₂ TypeSpec.Written specs (rest.filter fun c => !c.isSeparator)) :
      Listed (s :: specs) n

/-- The node is a declaration that binds this. -/
inductive Declared.Written : Declared → Node → Prop
  | function {n keyword name : Node} {rest : List Node} (kind_eq : n.kind = "function_declaration")
      (parts_eq : n.parts = keyword :: name :: rest) (keyword_eq : keyword.kind = "func")
      (name_eq : name.kind = "identifier") : Written (.function name.text) n
  | method {n : Node} {m : MethodHeader} (written : m.Written n) : Written (.method m) n
  | types {n : Node} {specs : List TypeSpec} (listed : TypeSpec.Listed specs n) : Written (.types specs) n
  | unnamed {n : Node} (kind_mem : n.kind ∈ ["import_declaration", "const_declaration", "var_declaration"]) :
      Written .unnamed n

/-- A function, a method, or at least one type. -/
def Declared.BindsName : Declared → Prop
  | .function _ | .method _ => True
  | .types specs => specs ≠ []
  | .unnamed => False

/-- The record is called by what the declaration binds. -/
structure Record.CalledAfter (d : Declared) (r : Record) : Prop where
  isSome_iff : r.name.isSome = true ↔ d.BindsName
  function : r.kind = .function →
    (∃ name, d = .function name ∧ r.name = some name) ∨ ∃ m, d = .method m ∧ r.name = some m.name
  type : r.kind = .type → ∃ specs, d = .types specs ∧ r.name = specs.head?.map (·.name)
  unnamed : r.kind.isNamed = false → r.name = none
  nameless : r.kind.isNamed = true → r.name = none → d = .types []

/-! ## A declaration binds one thing -/

section Unique

variable {n : Node}

theorem TypeSpec.Written.unique {s t : TypeSpec} (h : s.Written n) (h' : t.Written n) : s = t := by
  have halias : s.isAlias = t.isAlias := by
    have hk := h.kind_eq.symm.trans h'.kind_eq
    cases hs : s.isAlias <;> cases ht : t.isAlias <;> simp [hs, ht] at hk ⊢
  obtain ⟨name, rest, hparts, -, hname⟩ := h.parts_eq
  obtain ⟨name', rest', hparts', -, hname'⟩ := h'.parts_eq
  obtain ⟨rfl, -⟩ := List.cons.inj (hparts.symm.trans hparts')
  cases s
  cases t
  simp only [TypeSpec.mk.injEq]
  exact ⟨hname.symm.trans hname', halias⟩

theorem TypeSpec.Listed.kind_eq {specs : List TypeSpec} (h : Listed specs n) : n.kind = "type_declaration" := by
  cases h <;> assumption

theorem TypeSpec.Listed.unique {ss ts : List TypeSpec} (h : Listed ss n) (h' : Listed ts n) : ss = ts := by
  cases h with
  | single _ hparts _ hs =>
    cases h' with
    | single _ hparts' _ ht =>
      simp only [hparts, List.cons.injEq] at hparts'
      obtain ⟨-, rfl, -⟩ := hparts'
      rw [hs.unique ht]
    | empty _ hparts' _ _ _ => simp [hparts] at hparts'
    | group _ hparts' _ _ _ _ _ => simp [hparts] at hparts'
  | empty _ hparts _ _ _ =>
    cases h' with
    | single _ hparts' _ _ => simp [hparts] at hparts'
    | empty _ _ _ _ _ => rfl
    | group _ hparts' _ _ _ _ _ => simp [hparts] at hparts'
  | group _ hparts _ _ _ hs hmore =>
    cases h' with
    | single _ hparts' _ _ => simp [hparts] at hparts'
    | empty _ hparts' _ _ _ => simp [hparts] at hparts'
    | group _ hparts' _ _ _ ht hmore' =>
      simp only [hparts, List.cons.injEq] at hparts'
      obtain ⟨-, -, rfl, hrest⟩ := hparts'
      obtain ⟨rfl, -⟩ := List.append_inj' hrest rfl
      rw [hs.unique ht, List.left_unique_forall₂' (fun _ _ _ hs ht => hs.unique ht) hmore hmore']

theorem Declared.Written.unique {d e : Declared} (h : d.Written n) (h' : e.Written n) : d = e := by
  cases h with
  | function hk hparts _ _ =>
    cases h' with
    | function _ hparts' _ _ =>
      simp only [hparts, List.cons.injEq] at hparts'
      obtain ⟨-, rfl, -⟩ := hparts'
      rfl
    | method hm => exact absurd hm.kind_eq (by simp [hk])
    | types hlisted => exact absurd hlisted.kind_eq (by simp [hk])
    | unnamed hmem => simp [hk] at hmem
  | method hm =>
    cases h' with
    | function hk _ _ _ => exact absurd hm.kind_eq (by simp [hk])
    | method hm' => rw [hm.unique hm']
    | types hlisted => exact absurd hlisted.kind_eq (by simp [hm.kind_eq])
    | unnamed hmem => simp [hm.kind_eq] at hmem
  | types hlisted =>
    cases h' with
    | function hk _ _ _ => exact absurd hlisted.kind_eq (by simp [hk])
    | method hm => exact absurd hlisted.kind_eq (by simp [hm.kind_eq])
    | types hlisted' => rw [hlisted.unique hlisted']
    | unnamed hmem => simp [hlisted.kind_eq] at hmem
  | unnamed hmem =>
    cases h' with
    | function hk _ _ _ => simp [hk] at hmem
    | method hm => simp [hm.kind_eq] at hmem
    | types hlisted => simp [hlisted.kind_eq] at hmem
    | unnamed _ => rfl

end Unique

/-! ## Functions -/

section Functions

variable {text : List Char} {n : Node}

theorem Syntax.Node.IsPhrase.exists_function (h : n.IsPhrase text .functionDeclaration) :
    ∃ name, (Declared.function name).Written n ∧ ownName? n = some name := by
  have htable : ∀ steps ∈ Syntax.Grammar.contents .functionDeclaration,
      steps = ⟨.terminal .kwFunc, none, none⟩ :: ⟨.terminal .identifier, some .name, none⟩ :: steps.drop 2 := by
    decide
  obtain ⟨steps, hsteps, hparted⟩ := h.parted
  rw [htable steps hsteps] at hparted
  obtain ⟨keyword, more, hparts, hfunc, hnone, hparted⟩ := hparted.uncons_token rfl nofun
  obtain ⟨name, rest, rfl, hkind, hfield, -⟩ := hparted.uncons_token rfl nofun
  refine ⟨name.text, .function h.kind_eq hparts hfunc hkind, ?_⟩
  have hchild : n.child? .name = some name := by
    rw [h.child?_eq, hparts]
    simp [hnone, hfield]
  rw [ownName?, hchild]
  rfl

end Functions

/-! ## Types -/

section Types

variable {text : List Char} {n : Node} {ns : List Node}

/-- The phrases that define a type. -/
def Syntax.Category.typeSpecs : List Category := [.typeSpec, .typeAlias]

theorem Syntax.Category.isVisible_of_mem_typeSpecs {d : Category} (hd : d ∈ typeSpecs) : d.isVisible = true := by
  have htable : ∀ d ∈ typeSpecs, d.isVisible = true := by decide
  exact htable d hd

theorem Syntax.Node.IsPhrase.isTypeSpec_eq_true {d : Category} (hd : d ∈ Category.typeSpecs)
    (h : n.IsPhrase text d) : isTypeSpec n = true := by
  have htable : ∀ d ∈ Category.typeSpecs, (d.name == "type_spec" || d.name == "type_alias") = true := by
    decide
  rw [isTypeSpec, h.kind_eq]
  exact htable d hd

/-- A spec begins with its name. -/
theorem Syntax.Node.IsPhrase.exists_typeSpec {d : Category} (hd : d ∈ Category.typeSpecs) (h : n.IsPhrase text d) :
    ∃ s : TypeSpec, s.Written n ∧ ownName? n = some s.name := by
  have htable : ∀ d ∈ Category.typeSpecs, ∀ steps ∈ Syntax.Grammar.contents d,
      steps = ⟨.terminal .identifier, some .name, some .typeIdentifier⟩ :: steps.drop 1 := by
    decide
  obtain ⟨steps, hsteps, hparted⟩ := h.parted
  rw [htable d hd steps hsteps] at hparted
  obtain ⟨name, rest, hparts, hkind, hfield, -⟩ := hparted.uncons_token rfl nofun
  have hcases : d = .typeSpec ∨ d = .typeAlias := by simpa [Category.typeSpecs] using hd
  refine ⟨⟨name.text, d == .typeAlias⟩, ⟨?_, name, rest, hparts, hkind, rfl⟩, ?_⟩
  · rw [h.kind_eq]
    rcases hcases with rfl | rfl <;> rfl
  · have hchild : n.child? .name = some name := by
      rw [h.child?_eq, hparts]
      simp [hfield]
    rw [ownName?, hchild]
    rfl

/-- The symbols behind the first spec of a group. -/
def Syntax.Step.IsSpecItem (s : Syntax.Step) : Prop :=
  (∃ t ∈ [Syntax.Terminal.newline, .semicolon, .nul], s = ⟨.terminal t, none, none⟩)
    ∨ ∃ d ∈ Category.typeSpecs, s = ⟨.category d, none, none⟩

/-- The nodes behind the first spec of a group. -/
def Syntax.Node.IsSpecItem (text : List Char) (n : Node) : Prop :=
  n.isSeparator = true ∨ ∃ d ∈ Category.typeSpecs, n.IsPhrase text d

theorem Syntax.Step.IsSpecItem.nodes {s : Syntax.Step} (hs : s.IsSpecItem)
    (h : Stands (Syntax.Tree.Sound text) s.field s.shownAs s.symbol ns) : ∀ c ∈ ns, c.IsSpecItem text := by
  have hmark : ∀ t ∈ [Syntax.Terminal.semicolon, .nul], t.isVisible = true ∧ t ≠ .comment
      ∧ (t.name == ";" || t.name == "\x00") = true := by decide
  rcases hs with ⟨t, ht, rfl⟩ | ⟨d, hd, rfl⟩
  · rcases List.mem_cons.mp ht with rfl | ht
    · -- a newline leaves no node
      rw [h.eq_nil rfl]
      exact List.forall_mem_nil _
    · obtain ⟨hvisible, hcomment, hname⟩ := hmark t ht
      obtain ⟨c, rfl, hkind, -⟩ := h.token hvisible hcomment
      refine List.forall_mem_singleton.mpr (Or.inl ?_)
      rw [Node.isSeparator, hkind]
      exact hname
  · obtain ⟨c, rfl, hc, -⟩ := h.phrase (Category.isVisible_of_mem_typeSpecs hd)
    exact List.forall_mem_singleton.mpr (Or.inr ⟨d, hd, hc⟩)

/-- A type declaration is a keyword and one spec, or a keyword and specs in parentheses. -/
theorem Syntax.Node.IsPhrase.typeDeclaration_parts (h : n.IsPhrase text .typeDeclaration) :
    ∃ keyword, keyword.kind = "type"
      ∧ ((∃ spec, n.parts = [keyword, spec] ∧ ∃ d ∈ Category.typeSpecs, spec.IsPhrase text d)
        ∨ ∃ left right, left.kind = "(" ∧ right.kind = ")"
          ∧ (n.parts = [keyword, left, right]
            ∨ ∃ spec rest, n.parts = keyword :: left :: spec :: (rest ++ [right])
              ∧ (∃ d ∈ Category.typeSpecs, spec.IsPhrase text d) ∧ ∀ c ∈ rest, c.IsSpecItem text)) := by
  have htable : ∀ steps ∈ Syntax.Grammar.contents .typeDeclaration,
      (∃ d ∈ Category.typeSpecs, steps = [⟨.terminal .kwType, none, none⟩, ⟨.category d, none, none⟩])
        ∨ steps = [⟨.terminal .kwType, none, none⟩, ⟨.terminal .lparen, none, none⟩,
          ⟨.terminal .rparen, none, none⟩]
        ∨ ∃ d ∈ Category.typeSpecs,
          steps = ⟨.terminal .kwType, none, none⟩ :: ⟨.terminal .lparen, none, none⟩
              :: ⟨.category d, none, none⟩ :: ((steps.drop 3).dropLast ++ [⟨.terminal .rparen, none, none⟩])
            ∧ ∀ s ∈ (steps.drop 3).dropLast, s.IsSpecItem ∨ s = ⟨.category .moreTypeSpecs, none, none⟩ := by
    unfold Syntax.Step.IsSpecItem
    decide
  have hmore : ∀ steps ∈ Syntax.Grammar.contents .moreTypeSpecs,
      steps = [⟨.category .moreTypeSpecs, none, none⟩, ⟨.category .moreTypeSpecs, none, none⟩]
        ∨ ∀ s ∈ steps, s.IsSpecItem := by
    unfold Syntax.Step.IsSpecItem
    decide
  obtain ⟨steps, hsteps, hparted⟩ := h.parted
  rcases htable steps hsteps with ⟨d, hd, rfl⟩ | rfl | ⟨d, hd, hends, hmiddle⟩
  · obtain ⟨keyword, more, hparts, hkeyword, -, hparted⟩ := hparted.uncons_token rfl nofun
    obtain ⟨spec, rest, rfl, hspec, -, hparted⟩ :=
      hparted.uncons_phrase (Category.isVisible_of_mem_typeSpecs hd)
    rw [hparted.eq_nil] at hparts
    exact ⟨keyword, hkeyword, Or.inl ⟨spec, hparts, d, hd, hspec⟩⟩
  · obtain ⟨keyword, more, hparts, hkeyword, -, hparted⟩ := hparted.uncons_token rfl nofun
    obtain ⟨left, more, rfl, hleft, -, hparted⟩ := hparted.uncons_token rfl nofun
    obtain ⟨right, more, rfl, hright, -, hparted⟩ := hparted.uncons_token rfl nofun
    rw [hparted.eq_nil] at hparts
    exact ⟨keyword, hkeyword, Or.inr ⟨left, right, hleft, hright, Or.inl hparts⟩⟩
  · rw [hends] at hparted
    obtain ⟨keyword, more, hparts, hkeyword, -, hparted⟩ := hparted.uncons_token rfl nofun
    obtain ⟨left, more, rfl, hleft, -, hparted⟩ := hparted.uncons_token rfl nofun
    obtain ⟨spec, more, rfl, hspec, -, hparted⟩ :=
      hparted.uncons_phrase (Category.isVisible_of_mem_typeSpecs hd)
    obtain ⟨rest, last, rfl, hrest, hparted⟩ := hparted.append
    obtain ⟨right, more, rfl, hright, -, hparted⟩ := hparted.uncons_token rfl nofun
    rw [hparted.eq_nil] at hparts
    refine ⟨keyword, hkeyword, Or.inr ⟨left, right, hleft, hright, Or.inr ⟨spec, rest, hparts,
      ⟨d, hd, hspec⟩, hrest.forall_mem fun s hs ns hns => ?_⟩⟩⟩
    rcases hmiddle s hs with hitem | rfl
    · rw [s.field_orElse_none] at hns
      exact hitem.nodes hns
    · exact hns.repetition rfl fun steps hsteps => (hmore steps hsteps).imp_right fun hcopy s hs ms hms =>
        (hcopy s hs).nodes hms

theorem find?_isTypeSpec_parts (n : Node) : n.children.find? isTypeSpec = n.parts.find? isTypeSpec := by
  rw [Node.parts, Syntax.withoutComments, List.find?_filter]
  refine List.find?_congr fun c _ => ?_
  by_cases hk : c.kind = "comment"
  · simp [isTypeSpec, hk]
  · simp [Node.isComment, hk]

/-- The first spec of a type declaration gives the name. -/
theorem Syntax.Node.IsPhrase.exists_types (h : n.IsPhrase text .typeDeclaration) :
    ∃ specs : List TypeSpec, (Declared.types specs).Written n
      ∧ firstTypeName? n = specs.head?.map (·.name) := by
  have htoken : ∀ c : Node, c.kind ∈ ["type", "(", ")"] → isTypeSpec c = false := by
    intro c hc
    simp only [List.mem_cons, List.not_mem_nil, or_false] at hc
    rcases hc with hk | hk | hk <;> simp [isTypeSpec, hk]
  obtain ⟨keyword, hkeyword, ⟨spec, hparts, d, hd, hspec⟩ | ⟨left, right, hleft, hright, hparts
    | ⟨spec, rest, hparts, ⟨d, hd, hspec⟩, hrest⟩⟩⟩ := h.typeDeclaration_parts
  · obtain ⟨s, hs, hname⟩ := hspec.exists_typeSpec hd
    refine ⟨[s], .types (.single h.kind_eq hparts hkeyword hs), ?_⟩
    rw [firstTypeName?, find?_isTypeSpec_parts, hparts]
    simp [htoken keyword (by simp [hkeyword]), hspec.isTypeSpec_eq_true hd, hname]
  · refine ⟨[], .types (.empty h.kind_eq hparts hkeyword hleft hright), ?_⟩
    rw [firstTypeName?, find?_isTypeSpec_parts, hparts]
    simp [htoken keyword (by simp [hkeyword]), htoken left (by simp [hleft]), htoken right (by simp [hright])]
  · obtain ⟨s, hs, hname⟩ := hspec.exists_typeSpec hd
    -- the other specs have no say in the name, but each of them is one
    have hspecs : ∀ c ∈ rest.filter fun c => !c.isSeparator, ∃ s : TypeSpec, s.Written c := by
      intro c hc
      obtain ⟨hmem, hseparator⟩ := List.mem_filter.mp hc
      obtain ⟨e, he, hphrase⟩ := (hrest c hmem).resolve_left (by simpa using hseparator)
      obtain ⟨s, hs, -⟩ := hphrase.exists_typeSpec he
      exact ⟨s, hs⟩
    obtain ⟨specs, hmore⟩ := Syntax.exists_forall₂ hspecs
    refine ⟨s :: specs, .types (.group h.kind_eq hparts hkeyword hleft hright hs hmore), ?_⟩
    rw [firstTypeName?, find?_isTypeSpec_parts, hparts]
    simp [htoken keyword (by simp [hkeyword]), htoken left (by simp [hleft]), hspec.isTypeSpec_eq_true hd, hname]

end Types

/-! ## Records -/

section Records

variable {o : Options} {n : Node} {r : Record}

theorem Record.calledAfter_function {name : List Char} (hk : r.kind = .function) (hname : r.name = some name) :
    r.CalledAfter (.function name) := by
  constructor <;> simp [hk, hname, Declared.BindsName, Kind.isNamed]

theorem Record.calledAfter_types {specs : List TypeSpec} (hk : r.kind = .type)
    (hname : r.name = specs.head?.map (·.name)) : r.CalledAfter (.types specs) := by
  constructor <;> cases specs <;> simp [hk, hname, Declared.BindsName, Kind.isNamed]

theorem Record.calledAfter_unnamed (hk : r.kind.isNamed = false) (hname : r.name = none) :
    r.CalledAfter .unnamed := by
  have hfunction : r.kind ≠ .function := by
    intro heq
    simp [heq, Kind.isNamed] at hk
  have htype : r.kind ≠ .type := by
    intro heq
    simp [heq, Kind.isNamed] at hk
  constructor <;> simp [hk, hname, hfunction, htype, Declared.BindsName]

/-- Imports, constants and variables have no name under either taxonomy. -/
theorem Record.calledAfter_ofNode_unnamed
    (hk : n.kind ∈ ["import_declaration", "const_declaration", "var_declaration"]) :
    (Record.ofNode o n).CalledAfter .unnamed := by
  simp only [List.mem_cons, List.not_mem_nil, or_false] at hk
  rcases hk with hk | hk | hk
  all_goals
    refine calledAfter_unnamed ?_ ?_
    · rw [Record.ofNode, describe, hk]
      cases o.taxonomy <;> rfl
    · rw [Record.ofNode, describe, hk]
      rfl

/-- A method has a name, whether it is reported as a method or as a function. -/
theorem Record.Reflects.calledAfter {m : MethodHeader} (h : r.Reflects o m) : r.CalledAfter (.method m) := by
  by_cases hbelongs : ∃ T, m.BelongsTo T
  · obtain ⟨T, hT⟩ := hbelongs
    have hk := h.method_iff.mpr ⟨T, hT⟩
    have hname := h.name_eq T hT
    constructor <;> simp [hk, hname, Declared.BindsName, Kind.isNamed]
  · obtain ⟨hk, hname⟩ := h.function (not_exists.mp hbelongs)
    constructor <;> simp [hk, hname, Declared.BindsName, Kind.isNamed]

end Records

/-! ## Files with an index -/

section Files

variable {o : Options} {source : List Char} {n : Node}

/-- Every declaration of a file that fits binds something, and its record is called after it. -/
theorem exists_declared (hfit : (Syntax.rootOf source).Fits) (hlayout : (Syntax.rootOf source).InLayout)
    (hn : n ∈ declarationNodes (Syntax.rootOf source)) :
    ∃ d : Declared, d.Written n ∧ (Record.ofNode o n).CalledAfter d := by
  have hchild := (declarationNodes_sublist _).mem hn
  have hunnamed : n.kind ∈ ["import_declaration", "const_declaration", "var_declaration"] →
      ∃ d : Declared, d.Written n ∧ (Record.ofNode o n).CalledAfter d :=
    fun hk => ⟨.unnamed, .unnamed hk, Record.calledAfter_ofNode_unnamed hk⟩
  obtain ⟨keyword, hkeyword⟩ := kind_of_mem_declarationNodes hlayout hn
  simp only [declarationKeywords, List.mem_cons, Prod.mk.injEq, List.not_mem_nil, or_false] at hkeyword
  rcases hkeyword with ⟨hk, -⟩ | ⟨hk, -⟩ | ⟨hk, -⟩ | ⟨hk, -⟩ | ⟨hk, -⟩ | ⟨hk, -⟩
  · exact hunnamed (by simp [hk])
  · exact hunnamed (by simp [hk])
  · obtain ⟨specs, hwritten, hname⟩ :=
      (Syntax.isPhrase_of_mem_rootOf hfit hchild (d := .typeDeclaration) (by decide) hk).exists_types
    refine ⟨.types specs, hwritten, Record.calledAfter_types ?_ ?_⟩
    · rw [Record.ofNode, describe, hk]
      cases o.taxonomy <;> rfl
    · rw [Record.ofNode, describe, hk]
      exact hname
  · exact hunnamed (by simp [hk])
  · obtain ⟨name, hwritten, hname⟩ :=
      (Syntax.isPhrase_of_mem_rootOf hfit hchild (d := .functionDeclaration) (by decide) hk).exists_function
    refine ⟨.function name, hwritten, Record.calledAfter_function ?_ ?_⟩
    · rw [Record.ofNode, describe, hk]
      rfl
    · rw [Record.ofNode, describe, hk]
      exact hname
  · obtain ⟨m, hwritten, hreceiver, hname⟩ :=
      (Syntax.isPhrase_of_mem_rootOf hfit hchild (d := .methodDeclaration) (by decide) hk).exists_header
    exact ⟨.method m, .method hwritten, (Record.reflects_ofNode hk hreceiver hname).calledAfter⟩

end Files

namespace Index

variable {o : Options} {source : List Char} {i : Index}

/-- Every declaration of a file that has an index binds something, and its record is called after it. -/
theorem ofSource_names (h : ofSource o source = .ok i) :
    List.Forall₂ (fun n r => (∃ d : Declared, d.Written n) ∧ ∀ d : Declared, d.Written n → r.CalledAfter d)
      (declarationNodes (Syntax.rootOf source)) i.declarations := by
  obtain ⟨hfit, hlayout, -, hdeclarations⟩ := of_ofSource h
  rw [hdeclarations, classify, List.forall₂_map_right_iff, List.forall₂_same]
  intro n hn
  obtain ⟨d, hd, hcalled⟩ := exists_declared hfit hlayout hn
  refine ⟨⟨d, hd⟩, fun e he => ?_⟩
  rw [he.unique hd]
  exact hcalled

/-- A file with an empty group, and one whose first spec is an alias with a comment before it. -/
def typeGroups : List Char := "package p\ntype()\ntype(/**/A=B;C D)".toList

def typeGroupsIndex : Index := ⟨['p'], [⟨.type, 2, 2, none⟩, ⟨.type, 3, 3, some ['A']⟩]⟩

set_option maxRecDepth 100000 in
theorem ofSource_typeGroups : ofSource {} typeGroups = .ok typeGroupsIndex := by decide +kernel

theorem ofSource_names_typeGroups :
    ofSource {} typeGroups = .ok typeGroupsIndex
      ∧ List.Forall₂ (fun n r => (∃ d : Declared, d.Written n) ∧ ∀ d : Declared, d.Written n → r.CalledAfter d)
        (declarationNodes (Syntax.rootOf typeGroups)) typeGroupsIndex.declarations :=
  ⟨ofSource_typeGroups, ofSource_names ofSource_typeGroups⟩

end Index

end SpanIndex
