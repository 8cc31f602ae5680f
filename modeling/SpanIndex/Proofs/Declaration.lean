import SpanIndex.Proofs.Layout
import SpanIndex.Proofs.Record

/-!
# Names of declarations

In a tree that fits the grammar every name that is reported is an identifier: that of the package, that of
a type, a function or a method, and that of a receiver. The name of a method may have its receiver before
it, with a dot between them.
-/

namespace SpanIndex

open Syntax (Node Field)
open Text (isIdentifier isIdentifierPart)

/-! ## Identifiers -/

theorem Text.not_mem_of_isIdentifier {c : Char} {name : List Char} (h : isIdentifier name = true)
    (hc : isIdentifierPart c = false) : c ∉ name := by
  cases name with
  | nil => cases h
  | cons d ds =>
    obtain ⟨hstart, hrest⟩ := Bool.and_eq_true_iff.mp h
    intro hmem
    have hpart : isIdentifierPart c = true := by
      rcases List.mem_cons.mp hmem with rfl | hmem
      · rw [isIdentifierPart, hstart]
        rfl
      · exact List.all_eq_true.mp hrest c hmem
    rw [hc] at hpart
    cases hpart

theorem Text.ne_nil_of_isIdentifier {name : List Char} (h : isIdentifier name = true) :
    name ≠ [] := by
  rintro rfl
  cases h

theorem Record.plainName_of_isIdentifier {name : List Char} (h : isIdentifier name = true) :
    PlainName name := by
  have hreturn : '\r' ∉ name := Text.not_mem_of_isIdentifier h (by decide)
  exact ⟨Text.ne_nil_of_isIdentifier h, Text.not_mem_of_isIdentifier h (by decide),
    fun hlast => hreturn (List.mem_of_getLast? hlast)⟩

/-- A plain name stays one with an identifier and a dot before it. -/
theorem Record.PlainName.qualify {receiver name : List Char} (h : PlainName name)
    (hr : isIdentifier receiver = true) : PlainName (receiver ++ '.' :: name) := by
  have hnewline : '\n' ∉ receiver := Text.not_mem_of_isIdentifier hr (by decide)
  refine ⟨by simp, ?_, ?_⟩
  · simp [hnewline, h.newline_not_mem]
  · rw [getLast?_append_cons h.ne_nil]
    exact h.return_not_last

/-! ## Nodes below the root -/

section Below

variable {source : List Char} {n c : Node}

theorem Syntax.Node.Below.down {root : Node} (h : n.Below root) (hc : c ∈ n.children) :
    c.Below root := by
  induction h with
  | child hn => exact .deeper hn (.child hc)
  | deeper hm _ ih => exact .deeper hm ih

theorem Syntax.Node.Shows.below {t : Syntax.Tree} (h : n.Shows source t) (hc : c.Below n) :
    ∃ u, c.Shows source u := by
  induction hc generalizing t with
  | child hm => exact h.child hm
  | deeper hm _ ih =>
    obtain ⟨u, hu⟩ := h.child hm
    exact ih hu

theorem Syntax.shows_of_below (h : n.Below (rootOf source)) : ∃ t, n.Shows source t := by
  cases h with
  | child hn => exact shows_of_mem_rootOf hn
  | deeper hc hn =>
    obtain ⟨t, ht⟩ := shows_of_mem_rootOf hc
    exact ht.below hn

end Below

/-! ## Names -/

theorem of_firstOfKind {kind : String} {n c : Node} (h : firstOfKind? kind n = some c) :
    c ∈ n.children ∧ c.kind = kind :=
  ⟨List.mem_of_find?_eq_some h, by simpa using List.find?_some h⟩

theorem of_child {f : Field} {n c : Node} (h : n.child? f = some c) :
    c ∈ n.children ∧ c.field = some f :=
  ⟨List.mem_of_find?_eq_some h, by simpa using List.find?_some h⟩

section Names

variable {source : List Char} {n c : Node} {name : List Char}

theorem isIdentifier_text (hfit : (Syntax.rootOf source).Fits) (hn : n.Below (Syntax.rootOf source))
    (hk : n.kind = "type_identifier" ∨ n.kind = "package_identifier") :
    isIdentifier n.text = true := by
  obtain ⟨t, ht⟩ := Syntax.shows_of_below hn
  exact ht.isIdentifier_of_kind (hfit n hn) hk

theorem of_packageName {root : Node} (h : packageName? root = some name) :
    ∃ c : Node, c.Below root ∧ c.kind = "package_identifier" ∧ c.text = name := by
  rw [packageName?, Option.map_eq_some_iff] at h
  obtain ⟨c, hc, rfl⟩ := h
  obtain ⟨clause, hclause, hc⟩ := Option.bind_eq_some_iff.mp hc
  obtain ⟨hmem, hkind⟩ := of_firstOfKind hc
  have hbelow : clause.Below root := .child (of_firstOfKind hclause).1
  exact ⟨c, hbelow.down hmem, hkind, rfl⟩

theorem isIdentifier_package (hfit : (Syntax.rootOf source).Fits)
    (h : packageName? (Syntax.rootOf source) = some name) : isIdentifier name = true := by
  obtain ⟨c, hc, hkind, rfl⟩ := of_packageName h
  exact isIdentifier_text hfit hc (Or.inr hkind)

theorem isIdentifier_ownName (hfit : (Syntax.rootOf source).Fits)
    (hn : n.Below (Syntax.rootOf source)) {d : Syntax.Category} (hd : d ∈ Syntax.Category.naming)
    (hk : n.kind = d.name) (h : ownName? n = some name) : isIdentifier name = true := by
  obtain ⟨c, hc, rfl⟩ := Option.map_eq_some_iff.mp h
  obtain ⟨hmem, hfield⟩ := of_child hc
  obtain ⟨t, ht⟩ := Syntax.shows_of_below hn
  exact ht.isIdentifier_name hd hk hmem hfield (hfit c (hn.down hmem))

theorem isIdentifier_firstTypeName (hfit : (Syntax.rootOf source).Fits)
    (hn : n.Below (Syntax.rootOf source)) (h : firstTypeName? n = some name) :
    isIdentifier name = true := by
  obtain ⟨spec, hspec, hname⟩ := Option.bind_eq_some_iff.mp h
  have hbelow := hn.down (List.mem_of_find?_eq_some hspec)
  have hkind := List.find?_some hspec
  rw [isTypeSpec, Bool.or_eq_true, beq_iff_eq, beq_iff_eq] at hkind
  rcases hkind with hk | hk
  · exact isIdentifier_ownName hfit hbelow (d := .typeSpec) (by decide) hk hname
  · exact isIdentifier_ownName hfit hbelow (d := .typeAlias) (by decide) hk hname

/-- A pointer type, or the type itself, is never above the type. -/
theorem below_of_pointee {root type : Node} (hn : type.Below root) (h : pointee? type = some c) :
    c.Below root := by
  rw [pointee?] at h
  split at h
  · have hc : c ∈ type.phrases := List.mem_of_mem_head? h
    exact hn.down (List.mem_filter.mp hc).1
  · cases h
    exact hn

theorem isIdentifier_receiver (hfit : (Syntax.rootOf source).Fits)
    (hn : n.Below (Syntax.rootOf source)) (h : receiver? n = some name) :
    isIdentifier name = true := by
  obtain ⟨list, hlist, hreceiver⟩ := Option.bind_eq_some_iff.mp h
  have hbelow := hn.down (of_child hlist).1
  rw [receiverOfList?] at hreceiver
  split at hreceiver
  · next parameter hparameter =>
    split at hreceiver
    · obtain ⟨target, htarget, hname⟩ := Option.bind_eq_some_iff.mp hreceiver
      obtain ⟨type, htype, hpointee⟩ := Option.bind_eq_some_iff.mp htarget
      -- each of these nodes is a child of the one before, or that node itself
      have hmem : parameter ∈ list.children.filter isParameter := hparameter ▸ List.mem_cons_self
      have hparent := hbelow.down (List.mem_filter.mp hmem).1
      have htarget := below_of_pointee (hparent.down (of_child htype).1) hpointee
      rw [plainTypeName?] at hname
      split at hname
      · next hkind =>
        cases hname
        exact isIdentifier_text hfit htarget (Or.inl (beq_iff_eq.mp hkind))
      · cases hname
    · cases hreceiver
  · cases hreceiver

end Names

/-! ## Records -/

theorem declarationNodes_sublist (root : Node) : (declarationNodes root).Sublist root.children :=
  List.filter_sublist.trans List.filter_sublist

@[simp] theorem Record.startLine_ofNode (o : Options) (n : Node) :
    (Record.ofNode o n).startLine = n.startLine := rfl

@[simp] theorem Record.endLine_ofNode (o : Options) (n : Node) :
    (Record.ofNode o n).endLine = n.endLine := rfl

theorem Form.ofKind_eq_function {kind : String} (h : Form.ofKind kind = .function) :
    kind = "function_declaration" := by
  unfold Form.ofKind at h
  split at h
  · cases h
  · split_ifs at h with hkind
    exact hkind

theorem Form.ofKind_eq_method {kind : String} (h : Form.ofKind kind = .method) :
    kind = "method_declaration" := by
  unfold Form.ofKind at h
  split at h
  · cases h
  · split_ifs at h with _ hkind
    exact hkind

/-- The names of records: an identifier, or two with a dot between them if methods are qualified and the
name is that of a method. -/
inductive NameShape (qualified : Bool) : Kind → List Char → Prop
  | single {k : Kind} {name : List Char} (hk : k = .method → qualified = false)
      (hname : isIdentifier name = true) : NameShape qualified k name
  | pair {receiver own : List Char} (hq : qualified = true) (hreceiver : isIdentifier receiver = true)
      (hown : isIdentifier own = true) : NameShape qualified .method (receiver ++ '.' :: own)

/-- Such names can be written without being escaped. -/
theorem NameShape.plainName {q : Bool} {k : Kind} {name : List Char} (h : NameShape q k name) :
    Record.PlainName name := by
  cases h with
  | single _ hname => exact Record.plainName_of_isIdentifier hname
  | pair _ hreceiver hown => exact (Record.plainName_of_isIdentifier hown).qualify hreceiver

theorem nameShape_of_describe {source : List Char} {o : Options} {n : Node} {name : List Char}
    (hfit : (Syntax.rootOf source).Fits) (hn : n ∈ (Syntax.rootOf source).children)
    (h : (describe o n).2 = some name) : NameShape o.qualifyMethods (describe o n).1 name := by
  have hbelow : n.Below (Syntax.rootOf source) := .child hn
  have hmethod : Form.ofKind n.kind = .method → ∀ own, ownName? n = some own →
      isIdentifier own = true := fun hform own =>
    isIdentifier_ownName hfit hbelow (d := .methodDeclaration) (by decide)
      (Form.ofKind_eq_method hform)
  rw [describe] at h ⊢
  split at h
  · exact .single nofun (isIdentifier_firstTypeName hfit hbelow h)
  · cases h
  · next hform =>
    exact .single nofun (isIdentifier_ownName hfit hbelow (d := .functionDeclaration) (by decide)
      (Form.ofKind_eq_function hform) h)
  · next hform =>
    cases hreceiver : receiver? n with
    | none =>
      rw [hreceiver] at h
      exact .single nofun (hmethod hform name h)
    | some receiver =>
      rw [hreceiver] at h
      obtain ⟨own, hown, rfl⟩ := Option.map_eq_some_iff.mp h
      have hident := hmethod hform own hown
      rw [qualify]
      split_ifs with hq
      · exact .pair hq (isIdentifier_receiver hfit hbelow hreceiver) hident
      · exact .single (fun _ => eq_false_of_ne_true hq) hident
  · cases h

end SpanIndex
