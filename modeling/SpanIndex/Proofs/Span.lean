import Mathlib.Data.List.Forall2
import SpanIndex.Proofs.Declaration

/-!
# Lines of declarations

The records of a file follow the text: each begins no later than it ends, and no record begins before the
one ahead of it has ended. All line numbers are those of lines that the text has, so they are not cut
short, and the line that a record begins in has the keyword of its declaration.
-/

namespace SpanIndex

open Syntax (Node byteCount)

/-! ## Line numbers -/

section Rows

variable {source : List Char} {n : Node} {row : Nat}

theorem toNat_lineOfRow (h : row + 1 < 4294967296) : (lineOfRow row).toNat = row + 1 := by
  rw [lineOfRow, UInt32.toNat_add, UInt32.toNat_ofNat_of_lt' (Nat.lt_of_succ_lt h)]
  exact Nat.mod_eq_of_lt h

theorem length_le_byteCount (text : List Char) : text.length ≤ byteCount text := by
  induction text with
  | nil => exact Nat.le_refl 0
  | cons c cs ih =>
    have hpos : 0 < c.utf8Size := c.utf8Size_pos
    simp only [byteCount, List.map_cons, List.sum_cons, List.length_cons] at ih ⊢
    omega

/-- The text of a node is a piece of the source. -/
theorem mem_of_mem_text {c : Char} (hn : n.Below (Syntax.rootOf source)) (hc : c ∈ n.text) :
    c ∈ source := by
  obtain ⟨t, ht⟩ := Syntax.shows_of_below hn
  rw [ht.text_eq] at hc
  have hrest := List.mem_of_mem_take hc
  rw [ht.sound.placed.start_in.rest_eq] at hrest
  exact List.mem_of_mem_drop hrest

/-- A file with a package name has more than newlines, so that its last line can be numbered. -/
theorem count_newline_lt {name : List Char} (hfit : (Syntax.rootOf source).Fits)
    (hname : packageName? (Syntax.rootOf source) = some name)
    (hsize : byteCount source < 4294967296) : source.count '\n' + 1 < 4294967296 := by
  have hident := isIdentifier_package hfit hname
  have hnewline : '\n' ∉ name := Text.not_mem_of_isIdentifier hident (by decide)
  obtain ⟨c, hc⟩ := List.exists_mem_of_ne_nil name (Text.ne_nil_of_isIdentifier hident)
  obtain ⟨n, hn, -, rfl⟩ := of_packageName hname
  have hcount : source.count '\n' < source.length :=
    List.count_lt_length_iff.mpr ⟨c, mem_of_mem_text hn hc, fun heq => hnewline (heq ▸ hc)⟩
  have hlength := length_le_byteCount source
  omega

end Rows

/-! ## The text of a line -/

section Lines

variable {word text line : List Char} {lines : List (List Char)} {c : Char}

theorem splitOn_newline_cons : ('\n' :: text).splitOn '\n' = [] :: text.splitOn '\n' := by
  simp [List.splitOn_eq_splitOnP, List.splitOnP_cons_eq_if_modifyHead]

theorem splitOn_cons_of_ne (hc : c ≠ '\n') (h : text.splitOn '\n' = line :: lines) :
    (c :: text).splitOn '\n' = (c :: line) :: lines := by
  rw [List.splitOn_eq_splitOnP] at h ⊢
  rw [List.splitOnP_cons_eq_if_modifyHead, h, if_neg (by simpa using hc), List.modifyHead_cons]

theorem exists_splitOn (text : List Char) : ∃ line lines, text.splitOn '\n' = line :: lines :=
  List.exists_cons_of_ne_nil (List.splitOn_ne_nil '\n' text)

theorem line_begins (hword : word <+: text) (hbreak : '\n' ∉ word)
    (h : text.splitOn '\n' = line :: lines) : word <+: line := by
  induction word generalizing text line with
  | nil => exact List.nil_prefix
  | cons c word ih =>
    obtain ⟨rest, rfl⟩ := hword
    obtain ⟨hc, hbreak⟩ := not_or.mp (mt List.mem_cons.mpr hbreak)
    obtain ⟨first, others, hsplit⟩ := exists_splitOn (word ++ rest)
    rw [List.cons_append, splitOn_cons_of_ne (Ne.symm hc) hsplit] at h
    cases h
    exact List.cons_prefix_cons.mpr ⟨rfl, ih (List.prefix_append word rest) hbreak hsplit⟩

/-- A word without a line break stands in the line that it begins in. -/
theorem infix_of_prefix_drop {k : Nat} (hword : word <+: text.drop k) (hbreak : '\n' ∉ word) :
    ∃ line, (text.splitOn '\n')[(text.take k).count '\n']? = some line ∧ word <:+: line := by
  induction text generalizing k with
  | nil => exact ⟨[], by simp, by simpa using hword⟩
  | cons c text ih =>
    cases k with
    | zero =>
      obtain ⟨line, lines, hlines⟩ := exists_splitOn (c :: text)
      rw [hlines]
      exact ⟨line, rfl, (line_begins hword hbreak hlines).isInfix⟩
    | succ k =>
      obtain ⟨line, hline, hinfix⟩ := ih hword
      by_cases hc : c = '\n'
      · subst hc
        rw [splitOn_newline_cons, List.take_succ_cons, List.count_cons_self, List.getElem?_cons_succ]
        exact ⟨line, hline, hinfix⟩
      · obtain ⟨first, others, hsplit⟩ := exists_splitOn text
        rw [splitOn_cons_of_ne hc hsplit, List.take_succ_cons, List.count_cons_of_ne hc]
        rw [hsplit] at hline
        -- only the first line grows, and the word may stand in it
        cases hcount : (text.take k).count '\n' with
        | zero =>
          rw [hcount] at hline
          cases hline
          exact ⟨c :: line, rfl, hinfix.trans (List.suffix_cons c line).isInfix⟩
        | succ j =>
          rw [hcount] at hline
          exact ⟨line, hline, hinfix⟩

end Lines

/-! ## Records in order -/

/-- The first and the last line of a record. -/
def Record.ends (r : Record) : List Nat := [r.startLine.toNat, r.endLine.toNat]

/-- The lines of nodes follow each other as their rows do. -/
theorem isChain_ends {o : Options} {ns : List Node} {i j : Nat} (h : Syntax.InOrder i ns j)
    (hlines : ∀ n ∈ ns, n.startLine.toNat = n.startRow + 1 ∧ n.endLine.toNat = n.endRow + 1) :
    List.IsChain (· ≤ ·)
      ((i + 1) :: (ns.map (Record.ofNode o)).flatMap Record.ends ++ [j + 1]) := by
  induction h with
  | nil h => exact .cons_cons (Nat.succ_le_succ h) (.singleton _)
  | cons first within _ ih =>
    obtain ⟨⟨hs, he⟩, hlines⟩ := List.forall_mem_cons.mp hlines
    simp only [List.map_cons, List.flatMap_cons, Record.ends, Record.startLine_ofNode,
      Record.endLine_ofNode, hs, he, List.cons_append, List.nil_append]
    exact .cons_cons (Nat.succ_le_succ first) (.cons_cons (Nat.succ_le_succ within) (ih hlines))

/-! ## Keywords -/

/-- The keywords that the declarations of each kind begin with. -/
def declarationKeywords : List (String × String) :=
  [ ("import_declaration", "import"), ("const_declaration", "const"), ("type_declaration", "type"),
    ("var_declaration", "var"), ("function_declaration", "func"), ("method_declaration", "func") ]

section Keywords

variable {source : List Char} {n : Node}

theorem kind_of_mem_declarationNodes {root : Node} (h : root.InLayout)
    (hn : n ∈ declarationNodes root) : ∃ keyword, (n.kind, keyword) ∈ declarationKeywords := by
  obtain ⟨hphrase, hpackage⟩ := List.mem_filter.mp hn
  obtain ⟨ks, hks, imports, rest, rfl, himports, hrest⟩ := mem_fileLayout_iff.mp h
  have hmem : n.kind ∈ root.phrases.map (·.kind) := List.mem_map_of_mem hphrase
  rw [hks, List.mem_cons, List.mem_append] at hmem
  rcases hmem with hk | hk | hk
  · rw [hk] at hpackage
    cases hpackage
  · rw [Part.ofKind_eq_imports.mp (himports _ hk)]
    exact ⟨"import", by decide⟩
  · rcases Part.ofKind_eq_declaration.mp (hrest _ hk) with hk | hk | hk | hk | hk
    · exact ⟨"const", by rw [hk]; decide⟩
    · exact ⟨"type", by rw [hk]; decide⟩
    · exact ⟨"var", by rw [hk]; decide⟩
    · exact ⟨"func", by rw [hk]; decide⟩
    · exact ⟨"func", by rw [hk]; decide⟩

/-- The line that a declaration begins in has its keyword. -/
theorem keyword_in_line (hfit : (Syntax.rootOf source).Fits)
    (hn : n ∈ (Syntax.rootOf source).children) {keyword : String}
    (hk : (n.kind, keyword) ∈ declarationKeywords) :
    ∃ line, (source.splitOn '\n')[n.startRow]? = some line ∧ keyword.toList <:+: line := by
  have htable : ∀ x ∈ declarationKeywords, '\n' ∉ x.2.toList
      ∧ ∃ y ∈ Syntax.introducers, y.1.name = x.1 ∧ y.2.name = x.2 := by decide
  obtain ⟨hbreak, ⟨d, kw⟩, hintroducer, hkind, hspelling⟩ := htable _ hk
  obtain ⟨t, ht⟩ := Syntax.shows_of_mem_rootOf hn
  have hsound : ∀ c ∈ n.children, c.flag = .sound :=
    fun c hc => hfit c (.deeper hn (.child hc))
  have hprefix := ht.introduced hintroducer hkind.symm hsound
  have hstart := ht.sound.placed.start_in
  simp only at hspelling
  rw [hspelling, hstart.rest_eq] at hprefix
  rw [ht.startRow_eq, hstart.row_eq]
  exact infix_of_prefix_drop hprefix hbreak

end Keywords

/-- The record has the lines of a declaration, and the first of them has its keyword. -/
structure Record.StandsFor (source : List Char) (n : Node) (r : Record) : Prop where
  startLine_eq : r.startLine.toNat = n.startRow + 1
  endLine_eq : r.endLine.toNat = n.endRow + 1
  introduced : ∃ keyword line, (n.kind, keyword) ∈ declarationKeywords
    ∧ (source.splitOn '\n')[r.startLine.toNat - 1]? = some line ∧ keyword.toList <:+: line

/-! ## Files with an index -/

namespace Index

variable {o : Options} {source : List Char} {i : Index}

/-- The lines of a file that has an index can all be numbered. -/
theorem toNat_lines (h : ofSource o source = .ok i) (hsize : byteCount source < 4294967296) :
    ∀ n ∈ declarationNodes (Syntax.rootOf source),
      n.startLine.toNat = n.startRow + 1 ∧ n.endLine.toNat = n.endRow + 1 := by
  intro n hn
  obtain ⟨hfit, -, hpackage, -⟩ := of_ofSource h
  have hcount := count_newline_lt hfit hpackage hsize
  obtain ⟨hle, hend⟩ := (Syntax.rootOf_inOrder source).of_mem ((declarationNodes_sublist _).mem hn)
  exact ⟨toNat_lineOfRow (by omega), toNat_lineOfRow (by omega)⟩

/-- The records of a file are in the order of the text and within its lines, and each of them stands for
one of the declarations. -/
theorem ofSource_spans (h : ofSource o source = .ok i) (hsize : byteCount source < 4294967296) :
    List.IsChain (· ≤ ·) (1 :: i.declarations.flatMap Record.ends ++ [source.count '\n' + 1])
      ∧ List.Forall₂ (Record.StandsFor source) (declarationNodes (Syntax.rootOf source))
        i.declarations := by
  obtain ⟨hfit, hlayout, -, hdeclarations⟩ := of_ofSource h
  have hlines := toNat_lines h hsize
  have hsublist := declarationNodes_sublist (Syntax.rootOf source)
  have hchain := isChain_ends (o := o) ((Syntax.rootOf_inOrder source).sublist hsublist) hlines
  rw [Nat.zero_add] at hchain
  rw [hdeclarations, classify]
  refine ⟨hchain, ?_⟩
  rw [List.forall₂_map_right_iff, List.forall₂_same]
  intro n hn
  obtain ⟨hs, he⟩ := hlines n hn
  obtain ⟨keyword, hkeyword⟩ := kind_of_mem_declarationNodes hlayout hn
  obtain ⟨line, hline, hinfix⟩ := keyword_in_line hfit (hsublist.mem hn) hkeyword
  refine ⟨hs, he, keyword, line, hkeyword, ?_, hinfix⟩
  rw [Record.startLine_ofNode, hs]
  exact hline

/-- A file with two declarations in one line. -/
def crowded : List Char := "package p\nvar x T; func (t *T) f() \x7b\n\x7d".toList

def crowdedIndex : Index :=
  ⟨['p'], [⟨.variable, 2, 2, none⟩, ⟨.method, 2, 3, some ['T', '.', 'f']⟩]⟩

set_option maxRecDepth 100000 in
theorem ofSource_crowded : ofSource {} crowded = .ok crowdedIndex := by decide +kernel

theorem ofSource_spans_crowded :
    byteCount crowded < 4294967296 ∧ ofSource {} crowded = .ok crowdedIndex
      ∧ List.IsChain (· ≤ ·)
        (1 :: crowdedIndex.declarations.flatMap Record.ends ++ [crowded.count '\n' + 1])
      ∧ List.Forall₂ (Record.StandsFor crowded) (declarationNodes (Syntax.rootOf crowded))
        crowdedIndex.declarations :=
  ⟨by decide, ofSource_crowded, ofSource_spans ofSource_crowded (by decide)⟩

end Index

end SpanIndex
