import SpanIndex.Proofs.Span
import SpanIndex.Proofs.Syntax.Lowered

/-!
# Line breaks in front of a source file

Line breaks in front of a file move its declarations down, and change nothing else: the index has the same
records, as many lines further down, and a file that is rejected is rejected for the same reason
(`Index.ofSource_lowered`).

This is so as long as nothing goes unreported. A text that does not fit the grammar is read at the least
cost, and line breaks in front of it count for that if the reader has to go back to the beginning. So
another reading may win, and if its fault is not seen below the root then the file is accepted
(`Index.not_loweredBy_runOn`).
-/

namespace SpanIndex

open Syntax (Node Tree Field Alias Step byteCount lowered)

/-! ## Nodes further up -/

namespace Syntax

namespace Node

mutual

/-- The node `k` rows further up. -/
def raise (k : Nat) : Node → Node
  | .mk kind named flag field startRow endRow text children =>
    .mk kind named flag field (startRow - k) (endRow - k) text (raiseAll k children)

def raiseAll (k : Nat) : List Node → List Node
  | [] => []
  | n :: ns => n.raise k :: raiseAll k ns

end

variable {k : Nat}

theorem raiseAll_eq_map (k : Nat) (ns : List Node) : raiseAll k ns = ns.map (raise k) := by
  induction ns with
  | nil => rfl
  | cons n ns ih => rw [raiseAll, ih, List.map_cons]

theorem raise_eq (k : Nat) (n : Node) :
    n.raise k = { n with startRow := n.startRow - k, endRow := n.endRow - k
                         children := n.children.map (raise k) } := by
  cases n
  rw [raise, raiseAll_eq_map]

@[simp] theorem kind_raise (k : Nat) (n : Node) : (n.raise k).kind = n.kind := by rw [raise_eq]

@[simp] theorem named_raise (k : Nat) (n : Node) : (n.raise k).named = n.named := by rw [raise_eq]

@[simp] theorem field_raise (k : Nat) (n : Node) : (n.raise k).field = n.field := by rw [raise_eq]

@[simp] theorem text_raise (k : Nat) (n : Node) : (n.raise k).text = n.text := by rw [raise_eq]

@[simp] theorem children_raise (k : Nat) (n : Node) :
    (n.raise k).children = n.children.map (raise k) := by rw [raise_eq]

/-- The node lies in rows that can be moved up by `k`. -/
def Behind (k : Nat) (n : Node) : Prop := k ≤ n.startRow ∧ k ≤ n.endRow

end Node

namespace Tree

variable {k : Nat} {text : List Char} {t : Tree} {ts : List Tree}

/-- The nodes of a tree behind `k` line breaks are those of the tree that it corresponds to, as many rows
further down. -/
def Lifts (k : Nat) (t : Tree) : Prop :=
  ∀ role a, nodes role a (t.raise k) = (nodes role a t).map (Node.raise k)
    ∧ ∀ n ∈ nodes role a t, n.Behind k

theorem stepsOf_raise (k : Nat) (t : Tree) : stepsOf (t.raise k).facts = stepsOf t.facts := by
  rw [facts_raise]
  rfl

theorem childNodes_raise (h : ∀ t ∈ ts, t.Lifts k) (inherited : Option Field) (steps : List Step) :
    childNodes inherited steps (ts.map (Tree.raise k))
        = (childNodes inherited steps ts).map (Node.raise k)
      ∧ ∀ n ∈ childNodes inherited steps ts, n.Behind k := by
  induction ts generalizing steps with
  | nil => exact ⟨rfl, fun n hn => by cases hn⟩
  | cons t ts ih =>
    have ht := h t List.mem_cons_self
    have ih := ih fun u hu => h u (List.mem_cons_of_mem _ hu)
    have hextra : (t.raise k).facts.extra = t.facts.extra := by rw [facts_raise]; rfl
    rw [List.map_cons, childNodes_cons, childNodes_cons, hextra]
    split
    · rw [(ht none none).1, (ih steps).1, List.map_append]
      refine ⟨rfl, fun n hn => ?_⟩
      exact (List.mem_append.mp hn).elim ((ht none none).2 n) ((ih steps).2 n)
    · rw [(ht _ _).1, (ih _).1, List.map_append]
      refine ⟨rfl, fun n hn => ?_⟩
      exact (List.mem_append.mp hn).elim ((ht _ _).2 n) ((ih _).2 n)

theorem Sound.lifts (h : t.Sound (lowered k text)) (hk : k ≤ t.facts.start.index) : t.Lifts k := by
  revert hk
  refine h.induction (P := fun t => k ≤ t.facts.start.index → t.Lifts k) ?_
  intro t ht ih hk role a
  have hchildren := childNodes_raise (k := k) fun c hc => ih c hc (Nat.le_trans hk (ht.start_le_child hc))
  have hplaced := ht.placed
  have hlabel : (t.raise k).facts.label = t.facts.label := by rw [facts_raise]; rfl
  rw [Tree.nodes_eq, Tree.nodes_eq, hlabel, stepsOf_raise, Tree.children_raise]
  split
  · have hnode : nodeOf role a (t.raise k).facts
        ((childNodes none (stepsOf t.facts) t.children).map (Node.raise k))
        = (nodeOf role a t.facts (childNodes none (stepsOf t.facts) t.children)).raise k := by
      rw [Node.raise_eq, facts_raise]
      unfold nodeOf
      simp only [Facts.raise, Place.textTo_raise hk]
      rfl
    rw [(hchildren none _).1, hnode]
    refine ⟨rfl, fun n hn => ?_⟩
    rw [List.mem_singleton.mp hn]
    exact ⟨hplaced.start_in.le_row hk, hplaced.stop_in.le_row (Nat.le_trans hk hplaced.start_le)⟩
  · rw [(hchildren role _).1]
    exact ⟨rfl, (hchildren role _).2⟩

end Tree

/-- What stands at file scope is moved up, if the trees of the two texts correspond. -/
theorem children_rootOf_lowered {k : Nat} {text : List Char}
    (h : parse text = (parse (lowered k text)).raise k)
    (hstart : ∀ c ∈ (parse (lowered k text)).children, k ≤ c.facts.start.index) :
    (rootOf text).children = (rootOf (lowered k text)).children.map (Node.raise k)
      ∧ ∀ n ∈ (rootOf (lowered k text)).children, n.Behind k := by
  have hchildren := Tree.childNodes_raise (k := k) (fun c hc =>
    ((parse_root (lowered k text)).children c hc).lifts (hstart c hc)) none
    (Tree.stepsOf (parse (lowered k text)).facts)
  rw [children_rootOf, children_rootOf, h, Tree.stepsOf_raise, Tree.children_raise]
  exact hchildren

end Syntax

/-! ## What is made of the nodes -/

section Nodes

variable {k : Nat} {n : Node} {ns : List Node}

mutual

theorem faultIn_raise (k : Nat) : ∀ n : Node,
    (faultIn (n.raise k)).map Located.cause = (faultIn n).map Located.cause
  | .mk _ _ flag _ _ _ _ children => by
    rw [Node.raise]
    cases flag with
    | missing => rfl
    | error => rfl
    | sound =>
      rw [faultIn, faultIn]
      exact faultAmong_raise k children

theorem faultAmong_raise (k : Nat) : ∀ ns : List Node,
    (faultAmong (Node.raiseAll k ns)).map Located.cause = (faultAmong ns).map Located.cause
  | [] => rfl
  | n :: ns => by
    have hn := faultIn_raise k n
    rw [Node.raiseAll, faultAmong, faultAmong]
    cases h : faultIn n with
    | none =>
      rw [h, Option.map_none, Option.map_eq_none_iff] at hn
      rw [hn]
      exact faultAmong_raise k ns
    | some fault =>
      rw [h, Option.map_some] at hn
      obtain ⟨fault', hfault', hcause⟩ := Option.map_eq_some_iff.mp hn
      rw [hfault']
      exact congrArg some hcause

end

theorem find?_raise {q : Node → Bool} (hq : ∀ n, q (n.raise k) = q n) (ns : List Node) :
    (ns.map (Node.raise k)).find? q = (ns.find? q).map (Node.raise k) := by
  rw [List.find?_map, show q ∘ Node.raise k = q from funext hq]

theorem filter_raise {q : Node → Bool} (hq : ∀ n, q (n.raise k) = q n) (ns : List Node) :
    (ns.map (Node.raise k)).filter q = (ns.filter q).map (Node.raise k) := by
  rw [List.filter_map, show q ∘ Node.raise k = q from funext hq]

@[simp] theorem isComment_raise (k : Nat) (n : Node) : (n.raise k).isComment = n.isComment := by
  simp [Node.isComment]

@[simp] theorem child?_raise (k : Nat) (n : Node) (f : Field) :
    (n.raise k).child? f = (n.child? f).map (Node.raise k) := by
  unfold Node.child?
  rw [Node.children_raise]
  exact find?_raise (fun n => by simp) _

@[simp] theorem phrases_raise (k : Nat) (n : Node) :
    (n.raise k).phrases = n.phrases.map (Node.raise k) := by
  unfold Node.phrases
  rw [Node.children_raise]
  exact filter_raise (fun n => by simp) _

@[simp] theorem firstOfKind?_raise (k : Nat) (kind : String) (n : Node) :
    firstOfKind? kind (n.raise k) = (firstOfKind? kind n).map (Node.raise k) := by
  unfold firstOfKind?
  rw [Node.children_raise]
  exact find?_raise (fun n => by simp) _

@[simp] theorem packageName?_raise (k : Nat) (n : Node) : packageName? (n.raise k) = packageName? n := by
  unfold packageName?
  rw [firstOfKind?_raise]
  cases firstOfKind? "package_clause" n with
  | none => rfl
  | some clause =>
    rw [Option.map_some, Option.bind_some, Option.bind_some, firstOfKind?_raise, Option.map_map]
    congr 1
    funext m
    exact Node.text_raise k m

@[simp] theorem ownName?_raise (k : Nat) (n : Node) : ownName? (n.raise k) = ownName? n := by
  unfold ownName?
  rw [child?_raise, Option.map_map]
  congr 1
  funext m
  exact Node.text_raise k m

@[simp] theorem firstTypeName?_raise (k : Nat) (n : Node) :
    firstTypeName? (n.raise k) = firstTypeName? n := by
  unfold firstTypeName?
  rw [Node.children_raise, find?_raise (fun n => by simp [isTypeSpec])]
  cases n.children.find? isTypeSpec with
  | none => rfl
  | some spec => exact ownName?_raise k spec

theorem pointee?_raise (k : Nat) (n : Node) :
    pointee? (n.raise k) = (pointee? n).map (Node.raise k) := by
  unfold pointee?
  rw [Node.kind_raise, phrases_raise]
  split
  · rw [List.head?_map]
  · rfl

theorem plainTypeName?_raise (k : Nat) (n : Node) : plainTypeName? (n.raise k) = plainTypeName? n := by
  simp [plainTypeName?]

theorem receiverOfList?_raise (k : Nat) (n : Node) : receiverOfList? (n.raise k) = receiverOfList? n := by
  unfold receiverOfList?
  rw [Node.children_raise, filter_raise (fun n => by simp [isParameter])]
  cases n.children.filter isParameter with
  | nil => rfl
  | cons parameter others =>
    cases others with
    | cons _ _ => rfl
    | nil =>
      simp only [List.map_cons, List.map_nil, Node.kind_raise, child?_raise]
      split
      · cases parameter.child? .type with
        | none => rfl
        | some type =>
          rw [Option.map_some, Option.bind_some, Option.bind_some, pointee?_raise]
          cases pointee? type with
          | none => rfl
          | some base => exact plainTypeName?_raise k base
      · rfl

@[simp] theorem receiver?_raise (k : Nat) (n : Node) : receiver? (n.raise k) = receiver? n := by
  unfold receiver?
  rw [child?_raise]
  cases n.child? .receiver with
  | none => rfl
  | some list => exact receiverOfList?_raise k list

theorem describe_raise (o : Options) (k : Nat) (n : Node) : describe o (n.raise k) = describe o n := by
  simp [describe]

theorem declarationNodes_raise (k : Nat) (n : Node) :
    declarationNodes (n.raise k) = (declarationNodes n).map (Node.raise k) := by
  unfold declarationNodes
  rw [phrases_raise]
  exact filter_raise (fun n => by simp) _

theorem next_raise (k : Nat) (n : Node) (stage : Stage) : stage.next (n.raise k) = stage.next n := by
  cases stage <;> simp [Stage.next]

/-- The first node out of order is the same. -/
theorem layoutFaultFrom_raise (k : Nat) (stage : Stage) (ns : List Node) :
    (layoutFaultFrom stage ns = none ∧ layoutFaultFrom stage (ns.map (Node.raise k)) = none)
      ∨ ∃ n ∈ ns, ∃ fault, layoutFaultFrom stage ns = some ⟨n.startLine, fault⟩
        ∧ layoutFaultFrom stage (ns.map (Node.raise k)) = some ⟨(n.raise k).startLine, fault⟩ := by
  induction ns generalizing stage with
  | nil => exact Or.inl ⟨rfl, rfl⟩
  | cons n ns ih =>
    rw [List.map_cons, layoutFaultFrom, layoutFaultFrom, next_raise]
    cases stage.next n with
    | error fault => exact Or.inr ⟨n, List.mem_cons_self, fault, rfl, rfl⟩
    | ok stage =>
      rcases ih stage with hnone | ⟨m, hm, hfault⟩
      · exact Or.inl hnone
      · exact Or.inr ⟨m, List.mem_cons_of_mem _ hm, hfault⟩

end Nodes

/-! ## Files -/

/-- The second record is `k` lines further down. -/
structure Record.LowerBy (k : Nat) (r r' : Record) : Prop where
  kind_eq : r'.kind = r.kind
  name_eq : r'.name = r.name
  startLine_eq : r'.startLine.toNat = r.startLine.toNat + k
  endLine_eq : r'.endLine.toNat = r.endLine.toNat + k

namespace Index

/-- The second result is that of a file with the contents of the first, `k` lines further down. -/
inductive LoweredBy (k : Nat) : Except Error Index → Except Error Index → Prop
  | index (package : List Char) {records records' : List Record}
      (lower : List.Forall₂ (Record.LowerBy k) records records') :
      LoweredBy k (.ok ⟨package, records⟩) (.ok ⟨package, records'⟩)
  | syntaxFault (f f' : Located SyntaxFault) :
      LoweredBy k (.error (.syntaxFault f)) (.error (.syntaxFault f'))
  | missingPackage : LoweredBy k (.error .missingPackage) (.error .missingPackage)
  | layoutFault (cause : LayoutFault) {line line' : UInt32} (lower : line'.toNat = line.toNat + k) :
      LoweredBy k (.error (.layoutFault ⟨line, cause⟩)) (.error (.layoutFault ⟨line', cause⟩))

variable {k : Nat} {source : List Char} {o : Options} {root root' : Node} {n : Node}

theorem toNat_startLine_raise (hn : n.Behind k) (hline : n.startRow + 1 < 4294967296) :
    n.startLine.toNat = (n.raise k).startLine.toNat + k := by
  have hrow : (n.raise k).startRow = n.startRow - k := by rw [Node.raise_eq]
  have hle := hn.1
  unfold Syntax.Node.startLine
  rw [hrow, toNat_lineOfRow hline, toNat_lineOfRow (by omega)]
  omega

theorem toNat_endLine_raise (hn : n.Behind k) (hline : n.endRow + 1 < 4294967296) :
    n.endLine.toNat = (n.raise k).endLine.toNat + k := by
  have hrow : (n.raise k).endRow = n.endRow - k := by rw [Node.raise_eq]
  have hle := hn.2
  unfold Syntax.Node.endLine
  rw [hrow, toNat_lineOfRow hline, toNat_lineOfRow (by omega)]
  omega

/-- Nothing but what stands at file scope counts. -/
theorem ofTree_congr (h : root.children = root'.children) : ofTree o root = ofTree o root' := by
  have hphrases : root.phrases = root'.phrases := by
    unfold Syntax.Node.phrases
    rw [h]
  have hname : packageName? root = packageName? root' := by
    unfold packageName? firstOfKind?
    rw [h]
  unfold ofTree firstSyntaxFault firstLayoutFault classify declarationNodes
  rw [h, hname, hphrases]

theorem isSome_firstSyntaxFault_raise (k : Nat) (root : Node) :
    (firstSyntaxFault (root.raise k)).isSome = (firstSyntaxFault root).isSome := by
  unfold firstSyntaxFault
  rw [Node.children_raise, ← Node.raiseAll_eq_map, ← Option.isSome_map (f := Located.cause),
    faultAmong_raise, Option.isSome_map]

/-- A file whose nodes can be moved up by `k` lines. If it has a package clause then its lines can be
numbered. -/
theorem ofTree_raise (hrows : ∀ n ∈ root.children, n.Behind k)
    (hlines : root.Fits → packageName? root ≠ none → ∀ n ∈ root.children,
      n.startRow + 1 < 4294967296 ∧ n.endRow + 1 < 4294967296) :
    LoweredBy k (ofTree o (root.raise k)) (ofTree o root) := by
  have hfault := isSome_firstSyntaxFault_raise k root
  unfold ofTree
  rw [packageName?_raise]
  cases hf : firstSyntaxFault root with
  | some f =>
    rw [hf, Option.isSome_some] at hfault
    obtain ⟨f', hf'⟩ := Option.isSome_iff_exists.mp hfault
    rw [hf']
    exact .syntaxFault f' f
  | none =>
    rw [hf, Option.isSome_none, Option.isSome_eq_false_iff, Option.isNone_iff_eq_none] at hfault
    rw [hfault]
    cases hname : packageName? root with
    | none => exact .missingPackage
    | some package =>
      have hlines := hlines ((firstSyntaxFault_eq_none_iff root).mp hf) (by rw [hname]; simp)
      simp only
      unfold firstLayoutFault
      rw [phrases_raise]
      rcases layoutFaultFrom_raise k .beforePackage root.phrases with
        ⟨hnone, hnone'⟩ | ⟨n, hn, fault, hsome, hsome'⟩
      · rw [hnone, hnone']
        refine .index package ?_
        unfold classify
        rw [declarationNodes_raise, List.map_map, List.forall₂_map_left_iff, List.forall₂_map_right_iff,
          List.forall₂_same]
        intro n hn
        have hmem := (declarationNodes_sublist root).mem hn
        unfold Record.ofNode
        simp only [Function.comp, describe_raise]
        exact ⟨rfl, rfl, toNat_startLine_raise (hrows n hmem) (hlines n hmem).1,
          toNat_endLine_raise (hrows n hmem) (hlines n hmem).2⟩
      · have hmem : n ∈ root.children := (List.mem_filter.mp hn).1
        rw [hsome, hsome']
        exact .layoutFault fault (toNat_startLine_raise (hrows n hmem) (hlines n hmem).1)

/-- Nothing stands at file scope in a blank text. -/
theorem ofSource_blank (hbom : source.head? ≠ some '\ufeff')
    (hblank : source.dropWhile Text.isSpace = []) : ofSource o source = .error .missingPackage := by
  obtain ⟨p, q, htree⟩ := Syntax.parse_blank hbom hblank
  have hchildren : (Syntax.rootOf source).children = [] := by
    rw [Syntax.children_rootOf, htree]
    rfl
  have hsame : ofTree o (Syntax.rootOf source) = ofTree o ⟨"", true, .sound, none, 0, 0, [], []⟩ :=
    ofTree_congr hchildren
  exact hsame.trans rfl

theorem ofSource_of_isSome (h : (firstSyntaxFault (Syntax.rootOf source)).isSome = true) :
    ∃ f, ofSource o source = .error (.syntaxFault f) := by
  obtain ⟨f, hf⟩ := Option.isSome_iff_exists.mp h
  refine ⟨f, ?_⟩
  unfold ofSource ofTree
  rw [hf]

/-- Line breaks in front of a file move everything in it down by as many lines, and have no other effect.
If the file does not fit the grammar, then a fault must have been reported with and without them. -/
theorem ofSource_lowered (o : Options) (k : Nat) (hbom : source.head? ≠ some '\ufeff')
    (hsize : byteCount (lowered k source) < 4294967296)
    (hseen : (Syntax.parse source).hasFault = true → ∀ s ∈ [source, lowered k source],
      (firstSyntaxFault (Syntax.rootOf s)).isSome = true) :
    LoweredBy k (ofSource o source) (ofSource o (lowered k source)) := by
  by_cases hblank : source.dropWhile Text.isSpace = []
  · rw [ofSource_blank hbom hblank, ofSource_blank (Syntax.head?_lowered hbom k)
      (by rw [Syntax.dropWhile_lowered, hblank])]
    exact .missingPackage
  · rcases Syntax.parse_lowered ⟨hbom, hblank⟩ k with ⟨heq, hstart⟩ | ⟨-, hfault⟩
    · obtain ⟨hchildren, hrows⟩ := Syntax.children_rootOf_lowered heq hstart
      rw [← Node.children_raise] at hchildren
      unfold ofSource
      rw [ofTree_congr hchildren]
      refine ofTree_raise hrows fun hfit hname n hn => ?_
      obtain ⟨package, hname⟩ := Option.ne_none_iff_exists'.mp hname
      have hcount := count_newline_lt hfit hname hsize
      obtain ⟨hle, hend⟩ := (Syntax.rootOf_inOrder _).of_mem hn
      exact ⟨by omega, by omega⟩
    · obtain ⟨f, hf⟩ := ofSource_of_isSome (o := o) (hseen hfault source List.mem_cons_self)
      obtain ⟨f', hf'⟩ := ofSource_of_isSome (o := o) (hseen hfault (lowered k source) (by simp))
      rw [hf, hf']
      exact .syntaxFault f f'

/-- A file with one declaration. -/
def plainFile : List Char := "package p\ntype t int\n".toList

/-- A file that ends in the middle of a declaration. -/
def cutFile : List Char := "func f".toList

set_option maxRecDepth 100000 in
theorem ofSource_lowered_plainFile_cutFile :
    LoweredBy 3 (ofSource {} plainFile) (ofSource {} (lowered 3 plainFile))
      ∧ LoweredBy 2 (ofSource {} cutFile) (ofSource {} (lowered 2 cutFile)) := by
  constructor
  · refine ofSource_lowered {} 3 (by decide) (by decide) fun hfault => ?_
    have hfits : (Syntax.parse plainFile).hasFault = false := by decide +kernel
    rw [hfits] at hfault
    cases hfault
  · exact ofSource_lowered {} 2 (by decide) (by decide) fun _ => by decide +kernel

/-- The end of the package clause is missing. -/
def runOn : List Char := "package p func f() \x7b\x7d".toList

set_option maxRecDepth 100000 in
/-- Without line breaks in front of it the clause is an error. With them that would cost more than the end of
a line that is left out, and as this has no node, the file is accepted. -/
theorem ofSource_runOn : ofSource {} runOn = .error (.syntaxFault ⟨1, .unexpected "package p".toList⟩)
    ∧ ofSource {} (lowered 64 runOn) = .ok ⟨['p'], [⟨.function, 65, 65, some ['f']⟩]⟩ := by
  decide +kernel

theorem not_loweredBy_runOn :
    ¬LoweredBy 64 (ofSource {} runOn) (ofSource {} (lowered 64 runOn)) := by
  rw [ofSource_runOn.1, ofSource_runOn.2]
  intro h
  cases h

end Index

end SpanIndex
