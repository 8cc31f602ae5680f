import Mathlib.Data.List.Forall2
import SpanIndex.Proofs.Parts
import SpanIndex.Proofs.Span

/-!
# Receivers of methods

A method declaration begins with a header: a list of receivers, each with any number of names and one of the types of
the grammar, and the name of the method. In a file that has an index every method has one header, and its record
follows from it: the method belongs to a type just if there is one receiver, which is not variadic and whose type
is a name or a pointer to a name. Any other method is reported as a function.
-/

namespace SpanIndex

open Syntax (Node Category Field Stands)

/-! ## Headers -/

/-- The types that are neither a name nor a pointer. -/
def Syntax.Category.otherTypes : List Category :=
  [.genericType, .qualifiedType, .structType, .interfaceType, .arrayType, .sliceType, .mapType, .channelType,
    .functionType, .negatedType, .parenthesizedType]

/-- The form of a type. -/
inductive TypeForm where
  | name (text : List Char)
  | pointer (target : TypeForm)
  | other (c : Category)
deriving DecidableEq

/-- A declaration of parameters such as `a, b T` or `a ...T`. -/
structure Parameter where
  names : List (List Char)
  variadic : Bool
  type : TypeForm
deriving DecidableEq

/-- What a method declaration begins with. -/
structure MethodHeader where
  receivers : List Parameter
  name : List Char
deriving DecidableEq

/-- The node is a type of the form. -/
inductive TypeForm.Written : TypeForm → Node → Prop
  | name {n : Node} (kind_eq : n.kind = "type_identifier") : Written (.name n.text) n
  | pointer {n star target : Node} {f : TypeForm} (kind_eq : n.kind = "pointer_type")
      (parts_eq : n.parts = [star, target]) (star_eq : star.kind = "*") (written : Written f target) :
      Written (.pointer f) n
  | other {n : Node} {c : Category} (known : c ∈ Category.otherTypes) (kind_eq : n.kind = c.name) :
      Written (.other c) n

/-- The node declares the parameter: first its names, with commas between them and dots if it is variadic, then
its type. -/
structure Parameter.Written (p : Parameter) (n : Node) : Prop where
  kind_eq : n.kind = if p.variadic then "variadic_parameter_declaration" else "parameter_declaration"
  parts_eq : ∃ before type, n.parts = before ++ [type]
    ∧ (∀ c ∈ before, c.kind ∈ ["identifier", ",", "..."])
    ∧ p.names = (before.filter (·.kind == "identifier")).map (·.text) ∧ p.type.Written type

/-- The node lists the parameters, in parentheses and with commas. -/
structure Parameter.Listed (ps : List Parameter) (n : Node) : Prop where
  kind_eq : n.kind = "parameter_list"
  parts_eq : ∃ left items right, n.parts = left :: (items ++ [right]) ∧ left.kind = "(" ∧ right.kind = ")"
    ∧ List.Forall₂ Parameter.Written ps (items.filter (·.kind != ","))

/-- The node is a method declaration with the header. -/
structure MethodHeader.Written (m : MethodHeader) (n : Node) : Prop where
  kind_eq : n.kind = "method_declaration"
  parts_eq : ∃ keyword list name rest, n.parts = keyword :: list :: name :: rest ∧ keyword.kind = "func"
    ∧ Parameter.Listed m.receivers list ∧ name.kind = "field_identifier" ∧ name.text = m.name

/-- The method belongs to the type `T`: its only receiver is a `T` or a pointer to one. -/
def MethodHeader.BelongsTo (m : MethodHeader) (T : List Char) : Prop :=
  ∃ p, m.receivers = [p] ∧ p.variadic = false ∧ (p.type = .name T ∨ p.type = .pointer (.name T))

/-! ## A node has one header -/

theorem Syntax.Category.name_of_mem_otherTypes {c : Category} (hc : c ∈ otherTypes) :
    c.name ≠ "type_identifier" ∧ c.name ≠ "pointer_type" := by
  have htable : ∀ c ∈ otherTypes, c.name ≠ "type_identifier" ∧ c.name ≠ "pointer_type" := by decide
  exact htable c hc

theorem TypeForm.Written.unique {f g : TypeForm} {n : Node} (h : f.Written n) (h' : g.Written n) : f = g := by
  have hinjective : ∀ c ∈ Category.otherTypes, ∀ d ∈ Category.otherTypes, c.name = d.name → c = d := by
    decide
  induction h generalizing g with
  | name hk =>
    cases h' with
    | name _ => rfl
    | pointer hk' _ _ _ => exact absurd (hk.symm.trans hk') (by decide)
    | other hc hk' => exact absurd (hk'.symm.trans hk) (Category.name_of_mem_otherTypes hc).1
  | pointer hk hparts _ _ ih =>
    cases h' with
    | name hk' => exact absurd (hk'.symm.trans hk) (by decide)
    | pointer _ hparts' _ hwritten =>
      rw [hparts] at hparts'
      simp only [List.cons.injEq] at hparts'
      obtain ⟨-, rfl, -⟩ := hparts'
      rw [ih hwritten]
    | other hc hk' => exact absurd (hk'.symm.trans hk) (Category.name_of_mem_otherTypes hc).2
  | other hc hk =>
    cases h' with
    | name hk' => exact absurd (hk.symm.trans hk') (Category.name_of_mem_otherTypes hc).1
    | pointer hk' _ _ _ => exact absurd (hk.symm.trans hk') (Category.name_of_mem_otherTypes hc).2
    | other hd hk' => rw [hinjective _ hc _ hd (hk.symm.trans hk')]

theorem Parameter.Written.unique {p q : Parameter} {n : Node} (h : p.Written n) (h' : q.Written n) :
    p = q := by
  have hvariadic : p.variadic = q.variadic := by
    have hk := h.kind_eq.symm.trans h'.kind_eq
    cases hp : p.variadic <;> cases hq : q.variadic <;> simp [hp, hq] at hk ⊢
  obtain ⟨before, type, hparts, -, hnames, htype⟩ := h.parts_eq
  obtain ⟨before', type', hparts', -, hnames', htype'⟩ := h'.parts_eq
  obtain ⟨rfl, hlast⟩ := List.append_inj' (hparts.symm.trans hparts') rfl
  obtain ⟨rfl, -⟩ := List.cons.inj hlast
  cases p
  cases q
  simp only [Parameter.mk.injEq]
  exact ⟨hnames.trans hnames'.symm, hvariadic, htype.unique htype'⟩

theorem Parameter.Listed.unique {ps qs : List Parameter} {n : Node} (h : Listed ps n) (h' : Listed qs n) :
    ps = qs := by
  obtain ⟨left, items, right, hparts, -, -, hitems⟩ := h.parts_eq
  obtain ⟨left', items', right', hparts', -, -, hitems'⟩ := h'.parts_eq
  obtain ⟨-, hrest⟩ := List.cons.inj (hparts.symm.trans hparts')
  obtain ⟨rfl, -⟩ := List.append_inj' hrest rfl
  exact List.left_unique_forall₂' (fun _ _ _ hp hq => hp.unique hq) hitems hitems'

theorem MethodHeader.Written.unique {m m' : MethodHeader} {n : Node} (h : m.Written n) (h' : m'.Written n) :
    m = m' := by
  obtain ⟨keyword, list, name, rest, hparts, -, hlist, -, hname⟩ := h.parts_eq
  obtain ⟨keyword', list', name', rest', hparts', -, hlist', -, hname'⟩ := h'.parts_eq
  rw [hparts] at hparts'
  simp only [List.cons.injEq] at hparts'
  obtain ⟨-, rfl, rfl, -⟩ := hparts'
  cases m
  cases m'
  simp only [MethodHeader.mk.injEq]
  exact ⟨hlist.unique hlist', hname.symm.trans hname'⟩

/-! ## Types -/

section Types

variable {text : List Char} {role : Option Field} {n : Node} {ns : List Node}

/-- The node is a type in which everything fits. -/
def Syntax.Node.IsType (text : List Char) (n : Node) : Prop :=
  n.kind = "type_identifier" ∧ n.named = true
    ∨ ∃ d ∈ Category.pointerType :: Category.otherTypes, n.IsPhrase text d

theorem Syntax.Node.IsType.named (h : n.IsType text) : n.named = true := by
  rcases h with ⟨-, hnamed⟩ | ⟨d, -, hphrase⟩
  · exact hnamed
  · exact hphrase.named

/-- The symbols that a type is written with. -/
def Syntax.Category.anyType : List Category := [.simpleType, .parenthesizedType]

theorem Syntax.Stands.typePhrase {d : Category} (hd : d ∈ Category.pointerType :: Category.otherTypes)
    (h : Stands (Syntax.Tree.Sound text) role none (.category d) ns) :
    ∃ c : Node, ns = [c] ∧ c.IsType text ∧ c.field = role := by
  have hvisible : ∀ d ∈ Category.pointerType :: Category.otherTypes, d.isVisible = true := by decide
  obtain ⟨c, hns, hc, hfield⟩ := h.phrase (hvisible d hd)
  exact ⟨c, hns, Or.inr ⟨d, hd, hc⟩, hfield⟩

/-- A type has one node, whatever type it is. -/
theorem Syntax.Stands.anyType {d : Category} (hd : d ∈ Category.anyType)
    (h : Stands (Syntax.Tree.Sound text) role none (.category d) ns) :
    ∃ c : Node, ns = [c] ∧ c.IsType text ∧ c.field = role := by
  have hsimple : ∀ steps ∈ Syntax.Grammar.contents .simpleType,
      steps = [⟨.terminal .identifier, none, some .typeIdentifier⟩]
        ∨ ∃ d ∈ Category.pointerType :: Category.otherTypes, steps = [⟨.category d, none, none⟩] := by
    decide
  simp only [Category.anyType, List.mem_cons, List.not_mem_nil, or_false] at hd
  rcases hd with rfl | rfl
  · obtain ⟨steps, hsteps, hparted⟩ := h.hidden rfl
    rcases hsimple steps hsteps with rfl | ⟨d, hd, rfl⟩
    · obtain ⟨c, hns, hkind, hnamed, hfield⟩ := hparted.singleton.token rfl nofun
      exact ⟨c, hns, Or.inl ⟨hkind, hnamed⟩, hfield⟩
    · exact hparted.singleton.typePhrase hd
  · exact h.typePhrase (by decide)

/-- A pointer type is a star and a type. -/
theorem Syntax.Node.IsPhrase.pointer_parts (h : n.IsPhrase text .pointerType) :
    ∃ star target, n.parts = [star, target] ∧ star.kind = "*" ∧ star.named = false ∧ target.IsType text := by
  have htable : ∀ steps ∈ Syntax.Grammar.contents .pointerType, ∃ d ∈ Category.anyType,
      steps = [⟨.terminal .star, none, none⟩, ⟨.category d, none, none⟩] := by decide
  obtain ⟨steps, hsteps, hparted⟩ := h.parted
  obtain ⟨d, hd, rfl⟩ := htable steps hsteps
  obtain ⟨xs, ys, hparts, hstar, htarget⟩ := hparted.uncons
  obtain ⟨star, rfl, hkind, hnamed, -⟩ := hstar.token rfl nofun
  obtain ⟨target, rfl, htype, -⟩ := htarget.singleton.anyType hd
  exact ⟨star, target, hparts, hkind, hnamed, htype⟩

theorem Syntax.Node.sizeOf_lt_of_mem {c : Node} (hc : c ∈ n.children) : sizeOf c < sizeOf n := by
  obtain ⟨_, _, _, _, _, _, _, children⟩ := n
  have hlt : sizeOf c < sizeOf children := List.sizeOf_lt_of_mem hc
  rw [Node.mk.sizeOf_spec]
  omega

theorem Syntax.Node.mem_children_of_mem_parts {c : Node} (hc : c ∈ n.parts) : c ∈ n.children :=
  List.mem_of_mem_filter hc

/-- The name of a type that is a name. -/
def TypeForm.plainName? : TypeForm → Option (List Char)
  | .name text => some text
  | _ => none

/-- The name that a receiver of the type has. -/
def TypeForm.receiverName? : TypeForm → Option (List Char)
  | .pointer f => f.plainName?
  | f => f.plainName?

theorem TypeForm.Written.plainTypeName?_eq {f : TypeForm} (h : f.Written n) :
    plainTypeName? n = f.plainName? := by
  cases h with
  | name hk => simp [plainTypeName?, hk, plainName?]
  | pointer hk _ _ _ => simp [plainTypeName?, hk, plainName?]
  | other hc hk => simp [plainTypeName?, hk, plainName?, (Category.name_of_mem_otherTypes hc).1]

/-- Every type has a form, down to what its pointers point to. -/
theorem Syntax.Node.IsType.exists_written {n : Node} (h : n.IsType text) :
    ∃ f : TypeForm, f.Written n ∧ (pointee? n).bind plainTypeName? = f.receiverName? := by
  have hself : n.kind ≠ "pointer_type" → pointee? n = some n := fun hk => by simp [pointee?, hk]
  rcases h with ⟨hk, -⟩ | ⟨d, hd, hphrase⟩
  · have hf : (TypeForm.name n.text).Written n := .name hk
    refine ⟨_, hf, ?_⟩
    rw [hself (by rw [hk]; decide)]
    exact hf.plainTypeName?_eq
  · have hkind := hphrase.kind_eq
    rcases List.mem_cons.mp hd with rfl | hd
    · obtain ⟨star, target, hparts, hstar, hnamed, htype⟩ := hphrase.pointer_parts
      have hmem : target ∈ n.children := mem_children_of_mem_parts (by simp [hparts])
      obtain ⟨f, hf, -⟩ := htype.exists_written
      refine ⟨_, .pointer hkind hparts hstar hf, ?_⟩
      -- of the two parts only the type is named
      have hphrases : n.phrases = [target] := by simp [phrases_eq, hparts, hnamed, htype.named]
      rw [pointee?, hkind, hphrases]
      exact hf.plainTypeName?_eq
    · have hf : (TypeForm.other d).Written n := .other hd hkind
      refine ⟨_, hf, ?_⟩
      rw [hself (by rw [hkind]; exact (Category.name_of_mem_otherTypes hd).2)]
      exact hf.plainTypeName?_eq
termination_by sizeOf n
decreasing_by exact sizeOf_lt_of_mem hmem

end Types

/-! ## Parameters -/

section Parameters

variable {text : List Char} {role : Option Field} {n : Node} {ns : List Node}

/-- The phrases that declare parameters. -/
def Syntax.Category.parameters : List Category := [.parameterDeclaration, .variadicParameterDeclaration]

/-- The node is one of those before the type of a parameter. -/
def Syntax.Node.PrecedesType (n : Node) : Prop :=
  n.kind ∈ ["identifier", ",", "..."] ∧ n.field ≠ some .type

theorem Syntax.Stands.precedesType {t : Syntax.Terminal}
    (h : Stands (Syntax.Tree.Sound text) role none (.terminal t) ns)
    (ht : t.isVisible = true ∧ t ≠ .comment ∧ t.name ∈ ["identifier", ",", "..."])
    (hrole : role ≠ some .type) : ∀ c ∈ ns, c.PrecedesType := by
  obtain ⟨hvisible, hcomment, hname⟩ := ht
  obtain ⟨c, rfl, hkind, -, hfield⟩ := h.token hvisible hcomment
  exact List.forall_mem_singleton.mpr ⟨hkind ▸ hname, hfield ▸ hrole⟩

/-- Behind the names of a parameter comes its type. -/
theorem Syntax.Node.IsPhrase.parameter_parts {d : Category} (hd : d ∈ Category.parameters)
    (h : n.IsPhrase text d) :
    ∃ before type, n.parts = before ++ [type] ∧ (∀ c ∈ before, c.PrecedesType)
      ∧ type.IsType text ∧ type.field = some .type := by
  have htable : ∀ d ∈ Category.parameters, ∀ steps ∈ Syntax.Grammar.contents d,
      (∃ e ∈ Category.anyType, steps = steps.dropLast ++ [⟨.category e, some .type, none⟩])
        ∧ ∀ s ∈ steps.dropLast, s = ⟨.terminal .identifier, some .name, none⟩
          ∨ s = ⟨.terminal .ellipsis, none, none⟩ ∨ s = ⟨.category .moreVarNames, none, none⟩ := by
    decide
  have hmore : ∀ steps ∈ Syntax.Grammar.contents .moreVarNames,
      steps = [⟨.category .moreVarNames, none, none⟩, ⟨.category .moreVarNames, none, none⟩]
        ∨ ∀ s ∈ steps, s = ⟨.terminal .identifier, some .name, none⟩
          ∨ s = ⟨.terminal .comma, none, none⟩ := by
    decide
  obtain ⟨steps, hsteps, hparted⟩ := h.parted
  obtain ⟨⟨e, he, hlast⟩, hbefore⟩ := htable d hd steps hsteps
  rw [hlast] at hparted
  obtain ⟨before, last, hparts, hnames, htype⟩ := hparted.append
  obtain ⟨type, rfl, htype, hfield⟩ := htype.singleton.anyType he
  refine ⟨before, type, hparts, ?_, htype, hfield⟩
  refine hnames.forall_mem fun s hs ns hns => ?_
  rcases hbefore s hs with rfl | rfl | rfl
  · exact hns.precedesType (by decide) nofun
  · exact hns.precedesType (by decide) nofun
  · refine hns.repetition rfl fun steps hsteps => (hmore steps hsteps).imp_right fun hcopy s hs ms hms => ?_
    rcases hcopy s hs with rfl | rfl
    · exact hms.precedesType (by decide) nofun
    · exact hms.precedesType (by decide) nofun

/-- The name that the parameter has as a receiver. -/
def Parameter.receiverName? (p : Parameter) : Option (List Char) :=
  if p.variadic then none else p.type.receiverName?

/-- The name of the type that a parameter node has as a receiver. -/
def receiverOfParameter? (n : Node) : Option (List Char) :=
  if n.kind == "parameter_declaration" then ((n.child? .type).bind pointee?).bind plainTypeName? else none

theorem Syntax.Node.IsPhrase.exists_parameter {d : Category} (hd : d ∈ Category.parameters)
    (h : n.IsPhrase text d) : ∃ p : Parameter, p.Written n ∧ receiverOfParameter? n = p.receiverName? := by
  obtain ⟨before, type, hparts, hbefore, htype, hfield⟩ := h.parameter_parts hd
  obtain ⟨f, hf, hname⟩ := htype.exists_written
  have hchild : n.child? .type = some type := by
    have hnone : before.find? (·.field == some .type) = none := by
      rw [List.find?_eq_none]
      intro c hc
      simpa using (hbefore c hc).2
    rw [h.child?_eq, hparts, List.find?_append, hnone]
    simp [hfield]
  have hkind := h.kind_eq
  have hcases : d = .parameterDeclaration ∨ d = .variadicParameterDeclaration := by
    simpa [Category.parameters] using hd
  refine ⟨⟨(before.filter (·.kind == "identifier")).map (·.text), d == .variadicParameterDeclaration, f⟩,
    ⟨?_, before, type, hparts, fun c hc => (hbefore c hc).1, rfl, hf⟩, ?_⟩
  · rcases hcases with rfl | rfl <;> exact hkind
  · rw [receiverOfParameter?, hchild, Option.bind_some, hname, hkind]
    rcases hcases with rfl | rfl <;> rfl

/-- The symbols between the parentheses of a list of parameters. -/
def Syntax.Step.IsListItem (s : Syntax.Step) : Prop :=
  s = ⟨.terminal .comma, none, none⟩ ∨ ∃ d ∈ Category.parameters, s = ⟨.category d, none, none⟩

/-- The nodes between the parentheses of a list of parameters. -/
def Syntax.Node.IsListItem (text : List Char) (n : Node) : Prop :=
  n.kind = "," ∨ ∃ d ∈ Category.parameters, n.IsPhrase text d

theorem Syntax.Step.IsListItem.nodes {s : Syntax.Step} (hs : s.IsListItem)
    (h : Stands (Syntax.Tree.Sound text) s.field s.shownAs s.symbol ns) : ∀ c ∈ ns, c.IsListItem text := by
  have hvisible : ∀ d ∈ Category.parameters, d.isVisible = true := by decide
  rcases hs with rfl | ⟨d, hd, rfl⟩
  · obtain ⟨c, rfl, hkind, -⟩ := h.token rfl nofun
    exact List.forall_mem_singleton.mpr (Or.inl hkind)
  · obtain ⟨c, rfl, hc, -⟩ := h.phrase (hvisible d hd)
    exact List.forall_mem_singleton.mpr (Or.inr ⟨d, hd, hc⟩)

theorem Syntax.Node.IsPhrase.list_parts (h : n.IsPhrase text .parameterList) :
    ∃ left items right, n.parts = left :: (items ++ [right]) ∧ left.kind = "(" ∧ right.kind = ")"
      ∧ ∀ c ∈ items, c.IsListItem text := by
  have htable : ∀ steps ∈ Syntax.Grammar.contents .parameterList,
      steps = ⟨.terminal .lparen, none, none⟩ :: (steps.tail.dropLast ++ [⟨.terminal .rparen, none, none⟩])
        ∧ ∀ s ∈ steps.tail.dropLast, s.IsListItem ∨ s = ⟨.category .moreParameters, none, none⟩ := by
    unfold Syntax.Step.IsListItem
    decide
  have hmore : ∀ steps ∈ Syntax.Grammar.contents .moreParameters,
      steps = [⟨.category .moreParameters, none, none⟩, ⟨.category .moreParameters, none, none⟩]
        ∨ ∀ s ∈ steps, s.IsListItem := by
    unfold Syntax.Step.IsListItem
    decide
  obtain ⟨steps, hsteps, hparted⟩ := h.parted
  obtain ⟨hends, hmiddle⟩ := htable steps hsteps
  rw [hends] at hparted
  obtain ⟨left, more, hparts, hopen, -, hrest⟩ := hparted.uncons_token rfl nofun
  obtain ⟨items, zs, rfl, hitems, hright⟩ := hrest.append
  obtain ⟨right, rfl, hclose, -⟩ := hright.singleton.token rfl nofun
  refine ⟨left, items, right, hparts, hopen, hclose, hitems.forall_mem fun s hs ns hns => ?_⟩
  rcases hmiddle s hs with hitem | rfl
  · rw [s.field_orElse_none] at hns
    exact hitem.nodes hns
  · exact hns.repetition rfl fun steps hsteps => (hmore steps hsteps).imp_right fun hcopy s hs ms hms =>
      (hcopy s hs).nodes hms

/-- The name of the type that the parameters have as receivers. -/
def Parameter.receiverOf? : List Parameter → Option (List Char)
  | [p] => p.receiverName?
  | _ => none

theorem receiverOfList?_eq {ps : List Parameter} {cs : List Node} (hcs : n.children.filter isParameter = cs)
    (h : List.Forall₂ (fun p c => receiverOfParameter? c = p.receiverName?) ps cs) :
    receiverOfList? n = Parameter.receiverOf? ps := by
  rw [receiverOfList?, hcs]
  cases h with
  | nil => rfl
  | cons hp hrest =>
    cases hrest with
    | nil => exact hp
    | cons _ _ => rfl

theorem exists_parameters {cs : List Node} (hcs : ∀ c ∈ cs, ∃ d ∈ Category.parameters, c.IsPhrase text d) :
    ∃ ps : List Parameter,
      List.Forall₂ (fun p c => p.Written c ∧ receiverOfParameter? c = p.receiverName?) ps cs := by
  refine Syntax.exists_forall₂ fun c hc => ?_
  obtain ⟨d, hd, hphrase⟩ := hcs c hc
  exact hphrase.exists_parameter hd

theorem filter_isParameter_parts (n : Node) : n.parts.filter isParameter = n.children.filter isParameter := by
  rw [Node.parts, Syntax.withoutComments, List.filter_filter]
  refine List.filter_congr fun c _ => ?_
  by_cases hk : c.kind = "comment"
  · simp [isParameter, hk]
  · simp [Node.isComment, hk]

theorem Syntax.Node.IsPhrase.exists_listed (h : n.IsPhrase text .parameterList) :
    ∃ ps : List Parameter, Parameter.Listed ps n ∧ receiverOfList? n = Parameter.receiverOf? ps := by
  obtain ⟨left, items, right, hparts, hleft, hright, hitems⟩ := h.list_parts
  have hparameter : ∀ c ∈ items, isParameter c = (c.kind != ",") := by
    have htable : ∀ d ∈ Category.parameters, (d.name == "parameter_declaration"
        || d.name == "variadic_parameter_declaration") = (d.name != ",") := by decide
    intro c hc
    rcases hitems c hc with hk | ⟨d, hd, hphrase⟩
    · simp [isParameter, hk]
    · rw [isParameter, hphrase.kind_eq]
      exact htable d hd
  have hfilter : n.children.filter isParameter = items.filter (·.kind != ",") := by
    rw [← filter_isParameter_parts, hparts, ← List.filter_congr hparameter]
    simp [isParameter, hleft, hright]
  have hphrases : ∀ c ∈ items.filter (·.kind != ","), ∃ d ∈ Category.parameters, c.IsPhrase text d := by
    intro c hc
    obtain ⟨hmem, hk⟩ := List.mem_filter.mp hc
    exact (hitems c hmem).resolve_left (by simpa using hk)
  obtain ⟨ps, hps⟩ := exists_parameters hphrases
  exact ⟨ps, ⟨h.kind_eq, left, items, right, hparts, hleft, hright, hps.imp fun _ _ hp => hp.1⟩,
    receiverOfList?_eq hfilter (hps.imp fun _ _ hp => hp.2)⟩

end Parameters

/-! ## Methods -/

section Methods

variable {text : List Char} {n : Node}

theorem Syntax.Node.IsPhrase.method_parts (h : n.IsPhrase text .methodDeclaration) :
    ∃ keyword list name rest, n.parts = keyword :: list :: name :: rest
      ∧ keyword.kind = "func" ∧ keyword.field = none
      ∧ list.IsPhrase text .parameterList ∧ list.field = some .receiver
      ∧ name.kind = "field_identifier" ∧ name.field = some .name := by
  have htable : ∀ steps ∈ Syntax.Grammar.contents .methodDeclaration,
      steps = ⟨.terminal .kwFunc, none, none⟩ :: ⟨.category .parameterList, some .receiver, none⟩
        :: ⟨.terminal .identifier, some .name, some .fieldIdentifier⟩ :: steps.drop 3 := by
    decide
  obtain ⟨steps, hsteps, hparted⟩ := h.parted
  rw [htable steps hsteps] at hparted
  obtain ⟨keyword, more, hparts, hfunc, hnone, hparted⟩ := hparted.uncons_token rfl nofun
  obtain ⟨list, more, rfl, hlist, hreceiver, hparted⟩ := hparted.uncons_phrase rfl
  obtain ⟨name, rest, rfl, hkind, hfield, -⟩ := hparted.uncons_token rfl nofun
  exact ⟨keyword, list, name, rest, hparts, hfunc, hnone, hlist, hreceiver, hkind, hfield⟩

/-- The name of the type that the method belongs to. -/
def MethodHeader.receiverName? (m : MethodHeader) : Option (List Char) := Parameter.receiverOf? m.receivers

theorem MethodHeader.receiverName?_eq_some_iff {m : MethodHeader} {T : List Char} :
    m.receiverName? = some T ↔ m.BelongsTo T := by
  have htype : ∀ f : TypeForm, f.receiverName? = some T ↔ f = .name T ∨ f = .pointer (.name T) := by
    intro f
    cases f with
    | name _ => simp [TypeForm.receiverName?, TypeForm.plainName?]
    | pointer g => cases g <;> simp [TypeForm.receiverName?, TypeForm.plainName?]
    | other _ => simp [TypeForm.receiverName?, TypeForm.plainName?]
  unfold receiverName? BelongsTo
  match m.receivers with
  | [] => simp [Parameter.receiverOf?]
  | [p] => simp [Parameter.receiverOf?, Parameter.receiverName?, htype]
  | _ :: _ :: _ => simp [Parameter.receiverOf?]

theorem Syntax.Node.IsPhrase.exists_header (h : n.IsPhrase text .methodDeclaration) :
    ∃ m : MethodHeader, m.Written n ∧ receiver? n = m.receiverName? ∧ ownName? n = some m.name := by
  obtain ⟨keyword, list, name, rest, hparts, hfunc, hnone, hlist, hreceiver, hkind, hfield⟩ := h.method_parts
  obtain ⟨ps, hps, hname⟩ := hlist.exists_listed
  refine ⟨⟨ps, name.text⟩, ⟨h.kind_eq, keyword, list, name, rest, hparts, hfunc, hps, hkind, rfl⟩, ?_, ?_⟩
  · have hchild : n.child? .receiver = some list := by
      rw [h.child?_eq, hparts]
      simp [hnone, hreceiver]
    rw [receiver?, hchild]
    exact hname
  · have hchild : n.child? .name = some name := by
      rw [h.child?_eq, hparts]
      simp [hnone, hreceiver, hfield]
    rw [ownName?, hchild]
    rfl

/-- The record says what the header of a method says: the type that it belongs to and its name, or only its name. -/
structure Record.Reflects (o : Options) (m : MethodHeader) (r : Record) : Prop where
  method_iff : r.kind = .method ↔ ∃ T, m.BelongsTo T
  name_eq : ∀ T, m.BelongsTo T → r.name = some (if o.qualifyMethods then T ++ '.' :: m.name else m.name)
  function : (∀ T, ¬ m.BelongsTo T) → r.kind = .function ∧ r.name = some m.name

theorem Record.reflects_ofNode {o : Options} {m : MethodHeader} (hk : n.kind = "method_declaration")
    (hreceiver : receiver? n = m.receiverName?) (hname : ownName? n = some m.name) :
    (Record.ofNode o n).Reflects o m := by
  have hform : Form.ofKind n.kind = .method := by
    rw [hk]
    decide
  cases hm : m.receiverName? with
  | none =>
    have hnot : ∀ T, ¬ m.BelongsTo T := by
      intro T hT
      rw [MethodHeader.receiverName?_eq_some_iff.mpr hT] at hm
      cases hm
    have hdescribe : describe o n = (.function, some m.name) := by
      simp [describe, hform, hreceiver, hm, hname]
    rw [Record.ofNode, hdescribe]
    refine ⟨⟨fun hkind => ?_, ?_⟩, fun T hT => absurd hT (hnot T), fun _ => ⟨rfl, rfl⟩⟩
    · cases hkind
    · rintro ⟨T, hT⟩
      exact absurd hT (hnot T)
  | some T =>
    have hT : m.BelongsTo T := MethodHeader.receiverName?_eq_some_iff.mp hm
    have hdescribe : describe o n = (.method, some (qualify o T m.name)) := by
      simp [describe, hform, hreceiver, hm, hname]
    rw [Record.ofNode, hdescribe]
    refine ⟨⟨fun _ => ⟨T, hT⟩, fun _ => rfl⟩, fun U hU => ?_, fun hnot => absurd hT (hnot T)⟩
    have hsame : T = U := Option.some.inj (hm.symm.trans (MethodHeader.receiverName?_eq_some_iff.mpr hU))
    rw [← hsame]
    rfl

end Methods

namespace Index

variable {o : Options} {source : List Char} {i : Index}

/-- Every method of a file that has an index has a header, and its record reflects it. -/
theorem ofSource_methods (h : ofSource o source = .ok i) :
    List.Forall₂ (fun n r => n.kind = "method_declaration" →
        (∃ m : MethodHeader, m.Written n) ∧ ∀ m : MethodHeader, m.Written n → r.Reflects o m)
      (declarationNodes (Syntax.rootOf source)) i.declarations := by
  obtain ⟨hfit, -, -, hdeclarations⟩ := of_ofSource h
  rw [hdeclarations, classify, List.forall₂_map_right_iff, List.forall₂_same]
  intro n hn hk
  have hchild := (declarationNodes_sublist _).mem hn
  obtain ⟨t, ht⟩ := Syntax.shows_of_mem_rootOf hchild
  have hphrase : n.IsPhrase source .methodDeclaration :=
    ⟨Syntax.Node.fits_iff.mp hfit n hchild, t, ht, ht.label_of_kind (by decide) hk⟩
  obtain ⟨m, hm, hreceiver, hname⟩ := hphrase.exists_header
  refine ⟨⟨m, hm⟩, fun m' hm' => ?_⟩
  rw [hm'.unique hm]
  exact Record.reflects_ofNode hk hreceiver hname

theorem ofSource_methods_crowded :
    ofSource {} crowded = .ok crowdedIndex
      ∧ List.Forall₂ (fun n r => n.kind = "method_declaration" →
          (∃ m : MethodHeader, m.Written n) ∧ ∀ m : MethodHeader, m.Written n → r.Reflects {} m)
        (declarationNodes (Syntax.rootOf crowded)) crowdedIndex.declarations :=
  ⟨ofSource_crowded, ofSource_methods ofSource_crowded⟩

end Index

end SpanIndex
