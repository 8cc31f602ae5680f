import Mathlib.Data.List.Forall2
import SpanIndex.Index

/-!
# Comments do not matter

Comments may stand between any two children of a node. Whatever is asked of a tree is asked by a search among the
children of a node, and each search is for something that a comment is not (`OverlooksComments`). So a tree with
comments put in anywhere (`Annotated`) gets the same answers.
-/

namespace SpanIndex

open Syntax (Node Field)

/-! ## Trees with comments put in -/

/-- A comment that stands between the parts of a phrase. -/
structure Syntax.Node.IsRemark (n : Node) : Prop where
  kind_eq : n.kind = "comment"
  named : n.named = true
  sound : n.flag = .sound
  field_eq : n.field = none
  childless : n.children = []

/-- The second list is the first one with comments put in; nodes that stand in both are related by `R`. -/
inductive Syntax.Interspersed (R : Node → Node → Prop) : List Node → List Node → Prop
  | nil : Interspersed R [] []
  | node {c d : Node} {cs ds : List Node} (first : R c d) (rest : Interspersed R cs ds) :
      Interspersed R (c :: cs) (d :: ds)
  | comment {d : Node} {cs ds : List Node} (remark : d.IsRemark) (rest : Interspersed R cs ds) :
      Interspersed R cs (d :: ds)

/-- The second tree is the first one with comments put in, at any depth and with all else kept. -/
inductive Syntax.Node.Annotated : Node → Node → Prop
  | mk {kind : String} {named : Bool} {flag : Syntax.Flag} {field : Option Field} {startRow endRow : Nat}
      {text : List Char} {cs ds : List Node} (children : Syntax.Interspersed Annotated cs ds) :
      Annotated ⟨kind, named, flag, field, startRow, endRow, text, cs⟩
        ⟨kind, named, flag, field, startRow, endRow, text, ds⟩

namespace Syntax

variable {n m : Node} {cs ds : List Node} {p : Node → Bool}

theorem Node.Annotated.interspersed (h : n.Annotated m) :
    Interspersed Node.Annotated n.children m.children := by
  cases h with
  | mk children => exact children

/-- Only the children may differ. -/
theorem Node.Annotated.eq_with (h : n.Annotated m) : m = { n with children := m.children } := by
  cases h with
  | mk _ => rfl

/-! ## Searches -/

/-- What is searched for is no comment, and is told without looking at the children of a node. -/
structure OverlooksComments (p : Node → Bool) : Prop where
  congr : ∀ (n : Node) (cs : List Node), p { n with children := cs } = p n
  remark : ∀ n : Node, n.IsRemark → p n = false

theorem OverlooksComments.eq (hp : OverlooksComments p) (h : n.Annotated m) : p m = p n := by
  rw [h.eq_with]
  exact hp.congr n _

theorem overlooksComments_kind {kind : String} (h : kind ≠ "comment") :
    OverlooksComments (·.kind == kind) :=
  ⟨fun _ _ => rfl, fun _ hn => by simp [hn.kind_eq, h.symm]⟩

theorem overlooksComments_field (f : Field) : OverlooksComments (·.field == some f) :=
  ⟨fun _ _ => rfl, fun _ hn => by simp [hn.field_eq]⟩

theorem overlooksComments_phrase : OverlooksComments fun c => c.named && !c.isComment :=
  ⟨fun _ _ => rfl, fun _ hn => by simp [Node.isComment, hn.kind_eq]⟩

theorem overlooksComments_isTypeSpec : OverlooksComments isTypeSpec :=
  ⟨fun _ _ => rfl, fun _ hn => by simp [isTypeSpec, hn.kind_eq]⟩

theorem overlooksComments_isParameter : OverlooksComments isParameter :=
  ⟨fun _ _ => rfl, fun _ hn => by simp [isParameter, hn.kind_eq]⟩

theorem Interspersed.filter (hp : OverlooksComments p) (h : Interspersed Node.Annotated cs ds) :
    List.Forall₂ Node.Annotated (cs.filter p) (ds.filter p) := by
  induction h with
  | nil => exact .nil
  | @node c d cs ds first rest ih =>
    have heq := hp.eq first
    by_cases hc : p c = true
    · rw [List.filter_cons_of_pos hc, List.filter_cons_of_pos (heq.trans hc)]
      exact .cons first ih
    · rw [List.filter_cons_of_neg hc, List.filter_cons_of_neg (heq ▸ hc)]
      exact ih
  | comment remark rest ih =>
    rw [List.filter_cons_of_neg (by simp [hp.remark _ remark])]
    exact ih

theorem rel_head? (h : List.Forall₂ Node.Annotated cs ds) :
    Option.Rel Node.Annotated cs.head? ds.head? := by
  cases h with
  | nil => exact .none
  | cons first _ => exact .some first

theorem Interspersed.find? (hp : OverlooksComments p) (h : Interspersed Node.Annotated cs ds) :
    Option.Rel Node.Annotated (cs.find? p) (ds.find? p) := by
  rw [← List.head?_filter, ← List.head?_filter]
  exact rel_head? (h.filter hp)

theorem Node.Annotated.child? (h : n.Annotated m) (f : Field) :
    Option.Rel Node.Annotated (n.child? f) (m.child? f) :=
  h.interspersed.find? (overlooksComments_field f)

theorem Node.Annotated.phrases (h : n.Annotated m) : List.Forall₂ Node.Annotated n.phrases m.phrases :=
  h.interspersed.filter overlooksComments_phrase

end Syntax

section Options

variable {α : Type} {x y : Option Node}

/-- The same is made of two results of a search. -/
theorem bind_eq_of_rel {f : Node → Option α} (h : Option.Rel Node.Annotated x y)
    (hf : ∀ n m : Node, n.Annotated m → f m = f n) : y.bind f = x.bind f := by
  cases h with
  | none => rfl
  | some hr => exact hf _ _ hr

theorem rel_bind {f : Node → Option Node} (h : Option.Rel Node.Annotated x y)
    (hf : ∀ n m : Node, n.Annotated m → Option.Rel Node.Annotated (f n) (f m)) :
    Option.Rel Node.Annotated (x.bind f) (y.bind f) := by
  cases h with
  | none => exact .none
  | some hr => exact hf _ _ hr

theorem map_text_eq_of_rel (h : Option.Rel Node.Annotated x y) : y.map (·.text) = x.map (·.text) := by
  cases h with
  | none => rfl
  | some hr => rw [Option.map_some, hr.eq_with, Option.map_some]

end Options

/-! ## Names -/

section Names

variable {n m : Node}

theorem ownName?_annotated (h : n.Annotated m) : ownName? m = ownName? n :=
  map_text_eq_of_rel (h.child? .name)

theorem firstTypeName?_annotated (h : n.Annotated m) : firstTypeName? m = firstTypeName? n :=
  bind_eq_of_rel (h.interspersed.find? Syntax.overlooksComments_isTypeSpec) fun _ _ => ownName?_annotated

theorem pointee?_annotated (h : n.Annotated m) : Option.Rel Node.Annotated (pointee? n) (pointee? m) := by
  have hkind : m.kind = n.kind := by rw [h.eq_with]
  unfold pointee?
  rw [hkind]
  split
  · exact Syntax.rel_head? h.phrases
  · exact .some h

theorem plainTypeName?_annotated (h : n.Annotated m) : plainTypeName? m = plainTypeName? n := by
  rw [h.eq_with]
  rfl

/-- Comments among the parameters, in the one parameter and behind its star are left out. -/
theorem receiverOfList?_annotated (h : n.Annotated m) : receiverOfList? m = receiverOfList? n := by
  have hparameters := h.interspersed.filter Syntax.overlooksComments_isParameter
  unfold receiverOfList?
  generalize n.children.filter isParameter = cs at *
  generalize m.children.filter isParameter = ds at *
  cases hparameters with
  | nil => rfl
  | @cons c d cs ds first rest =>
    cases rest with
    | nil =>
      have hkind : d.kind = c.kind := by rw [first.eq_with]
      have htype := rel_bind (first.child? .type) fun _ _ => pointee?_annotated
      simp only [hkind, bind_eq_of_rel htype fun _ _ => plainTypeName?_annotated]
    | cons _ _ => rfl

theorem receiver?_annotated (h : n.Annotated m) : receiver? m = receiver? n :=
  bind_eq_of_rel (h.child? .receiver) fun _ _ => receiverOfList?_annotated

theorem firstOfKind?_annotated (kind : String) (hkind : kind ≠ "comment") (h : n.Annotated m) :
    Option.Rel Node.Annotated (firstOfKind? kind n) (firstOfKind? kind m) :=
  h.interspersed.find? (Syntax.overlooksComments_kind hkind)

theorem packageName?_annotated (h : n.Annotated m) : packageName? m = packageName? n := by
  have hclause := firstOfKind?_annotated "package_clause" (by decide) h
  exact map_text_eq_of_rel (rel_bind hclause fun _ _ => firstOfKind?_annotated _ (by decide))

end Names

/-! ## Records -/

section Records

variable {n m : Node}

theorem Record.ofNode_annotated (o : Options) (h : n.Annotated m) : Record.ofNode o m = Record.ofNode o n := by
  have hdescribe : describe o m = describe o n := by
    have hkind : m.kind = n.kind := by rw [h.eq_with]
    unfold describe
    rw [hkind, firstTypeName?_annotated h, ownName?_annotated h, receiver?_annotated h]
  unfold Record.ofNode
  rw [hdescribe, h.eq_with]
  rfl

theorem classify_annotated (o : Options) (h : n.Annotated m) : classify o m = classify o n := by
  have hnodes : List.Forall₂ Node.Annotated (declarationNodes n) (declarationNodes m) := by
    refine List.rel_filter (fun c d hcd => ?_) h.phrases
    rw [hcd.eq_with]
  rw [classify, classify, ← List.forall₂_eq_eq_eq, List.forall₂_map_left_iff, List.forall₂_map_right_iff]
  exact hnodes.flip.imp fun _ _ hcd => Record.ofNode_annotated o hcd

end Records

/-! ## Faults -/

section Faults

open Syntax (Interspersed)

mutual

-- The recursion is on the tree with comments, which has a node for each step.

/-- The search for a fault goes through a comment without finding anything. -/
theorem faultIn_annotated : ∀ n m : Node, n.Annotated m → faultIn m = faultIn n
  | .mk _ _ flag _ _ _ _ cs, .mk _ _ _ _ _ _ _ ds, h => by
    cases h with
    | mk children =>
      have hchildren := faultAmong_annotated cs ds children
      cases flag <;> simp [faultIn, hchildren]

theorem faultAmong_annotated :
    ∀ cs ds : List Node, Interspersed Node.Annotated cs ds → faultAmong ds = faultAmong cs
  | cs, [], h => by
    cases h
    rfl
  | cs, d :: ds, h => by
    cases h with
    | @node c _ cs _ first rest =>
      rw [faultAmong, faultAmong, faultIn_annotated c d first, faultAmong_annotated cs ds rest]
    | comment remark rest =>
      have hd : faultIn d = none := by
        obtain ⟨_, _, flag, _, _, _, _, children⟩ := d
        obtain rfl : flag = .sound := remark.sound
        obtain rfl : children = [] := remark.childless
        rfl
      rw [faultAmong, hd]
      exact faultAmong_annotated cs ds rest

end

theorem layoutFaultFrom_annotated {ns ms : List Node} (h : List.Forall₂ Node.Annotated ns ms) (s : Stage) :
    layoutFaultFrom s ms = layoutFaultFrom s ns := by
  induction h generalizing s with
  | nil => rfl
  | @cons n m ns ms first rest ih =>
    have hnext : s.next m = s.next n := by rw [first.eq_with]; rfl
    have hline : m.startLine = n.startLine := by rw [first.eq_with]; rfl
    rw [layoutFaultFrom, layoutFaultFrom, hnext, hline]
    cases s.next n with
    | error fault => rfl
    | ok s' => exact ih s'

end Faults

/-! ## All answers -/

/-- With comments put in anywhere, a tree has the same faults, the same package and the same records. -/
theorem annotated_sameAnswers {root root' : Node} (h : root.Annotated root') :
    firstSyntaxFault root' = firstSyntaxFault root
      ∧ packageName? root' = packageName? root
      ∧ firstLayoutFault root' = firstLayoutFault root
      ∧ ∀ o, classify o root' = classify o root :=
  ⟨faultAmong_annotated _ _ h.interspersed, packageName?_annotated h,
    layoutFaultFrom_annotated h.phrases .beforePackage, fun o => classify_annotated o h⟩

section Sample

/-- A token of a sample tree. -/
def Syntax.Node.ofToken (kind text : String) (field : Option Field) : Node :=
  ⟨kind, kind != text, .sound, field, 0, 0, text.toList, []⟩

/-- A phrase of a sample tree. -/
def Syntax.Node.ofPhrase (kind : String) (field : Option Field) (children : List Node) : Node :=
  ⟨kind, true, .sound, field, 0, 0, [], children⟩

/-- A file with the method `func (*T) f()` and with `notes` inside each of its phrases. -/
def starMethod (notes : List Node) : Node :=
  .ofPhrase "source_file" none
    (.ofPhrase "package_clause" none
      (.ofToken "package" "package" none :: (notes ++ [.ofToken "package_identifier" "p" none]))
      :: (notes ++ [.ofPhrase "method_declaration" none
        (.ofToken "func" "func" none
          :: (notes ++ [.ofPhrase "parameter_list" (some .receiver)
            (.ofToken "(" "(" none
              :: (notes ++ [.ofPhrase "parameter_declaration" none
                (notes ++ [.ofPhrase "pointer_type" (some .type)
                  (.ofToken "*" "*" none :: (notes ++ [.ofToken "type_identifier" "T" none]))]),
                .ofToken ")" ")" none])),
            .ofToken "field_identifier" "f" (some .name)]))]))

/-- The note `/**/`. -/
def note : Node := ⟨"comment", true, .sound, none, 0, 0, "/**/".toList, []⟩

theorem starMethod_annotated : (starMethod []).Annotated (starMethod [note]) := by
  have hnote : note.IsRemark := ⟨rfl, rfl, rfl, rfl, rfl⟩
  have htoken : ∀ kind text field, (Node.ofToken kind text field).Annotated (.ofToken kind text field) :=
    fun _ _ _ => .mk .nil
  refine .mk (.node ?clause (.comment hnote (.node (.mk ?method) .nil)))
  case clause => exact .mk (.node (htoken ..) (.comment hnote (.node (htoken ..) .nil)))
  case method =>
    refine .node (htoken ..) (.comment hnote (.node (.mk ?list) (.node (htoken ..) .nil)))
    refine .node (htoken ..) (.comment hnote (.node (.mk ?parameter) (.node (htoken ..) .nil)))
    refine .comment hnote (.node (.mk ?pointer) .nil)
    exact .node (htoken ..) (.comment hnote (.node (htoken ..) .nil))

/-- The receiver is found behind all of the notes. -/
theorem annotated_sameAnswers_starMethod :
    (starMethod []).Annotated (starMethod [note])
      ∧ firstLayoutFault (starMethod [note]) = none
      ∧ packageName? (starMethod [note]) = some ['p']
      ∧ classify {} (starMethod [note]) = [⟨.method, 1, 1, some ['T', '.', 'f']⟩] := by
  obtain ⟨-, hpackage, hlayout, hclassify⟩ := annotated_sameAnswers starMethod_annotated
  refine ⟨starMethod_annotated, ?_, ?_, ?_⟩
  · rw [hlayout]
    decide
  · rw [hpackage]
    decide
  · rw [hclassify]
    decide

end Sample

end SpanIndex
