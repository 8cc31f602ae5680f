import Mathlib.Data.List.Forall2
import SpanIndex.Proofs.Settings.Merge

/-!
# Which layer decides a field

Of the layers that give a field a value the highest one decides, whatever the layers below it say. A value
that is not a table replaces what is below it (`Gives.merge_of_upper`), and a layer that does not speak of
the field leaves it alone (`Gives.merge_of_lower`). So two stacks that differ only in what is masked are
read alike (`ofEntries_stack_congr`).
-/

namespace SpanIndex.Settings

/-! ## Fields -/

/-- The fields of the output settings. -/
inductive Field where
  | format | taxonomy | qualifyMethods
deriving DecidableEq, Inhabited

namespace Field

def key : Field → Key
  | .format => formatKey
  | .taxonomy => taxonomyKey
  | .qualifyMethods => qualifyKey

/-- What a field chooses from. -/
def Choice : Field → Type
  | .format => Format
  | .taxonomy => Taxonomy
  | .qualifyMethods => Bool

/-- The choice that was made. -/
def ofSettings : (f : Field) → OutputSettings → f.Choice
  | .format, s => s.format
  | .taxonomy, s => s.options.taxonomy
  | .qualifyMethods, s => s.options.qualifyMethods

/-- How a choice is written. -/
def written : (f : Field) → f.Choice → Scalar
  | .format, x => .string x.name.toList
  | .taxonomy, x => .string x.name.toList
  | .qualifyMethods, b => .bool b

/-- A value stands for a choice. -/
def Accepts (f : Field) (v : Value) (x : f.Choice) : Prop := ∃ o, v = .scalar o (f.written x)

end Field

variable {f : Field} {v : Value}

theorem formatName_injective : Function.Injective Format.name := by
  intro x y h
  cases x <;> cases y <;> simp_all [Format.name]

theorem taxonomyName_injective : Function.Injective Taxonomy.name := by
  intro x y h
  cases x <;> cases y <;> simp_all [Taxonomy.name]

theorem Field.written_injective (f : Field) : Function.Injective f.written := by
  cases f with
  | format =>
    intro x y h
    exact formatName_injective (String.toList_inj.mp (Scalar.string.inj h))
  | taxonomy =>
    intro x y h
    exact taxonomyName_injective (String.toList_inj.mp (Scalar.string.inj h))
  | qualifyMethods =>
    intro x y h
    exact Scalar.bool.inj h

theorem Field.Accepts.unique {x y : f.Choice} (hx : f.Accepts v x) (hy : f.Accepts v y) : x = y := by
  obtain ⟨o, rfl⟩ := hx
  obtain ⟨o', h⟩ := hy
  exact f.written_injective (Value.scalar.inj h).2

/-! ## Reading a section -/

section Read

variable {path : List Key}

/-- A name that is read is one of those that are known. -/
theorem of_readName {α : Type} {names : List (String × α)} {needed : Needed} {x : α}
    (h : readName names needed path v = .ok x) :
    ∃ o n, n ∈ names ∧ n.2 = x ∧ v = .scalar o (.string n.1.toList) := by
  unfold readName at h
  split at h
  · next o s =>
    split at h
    · next n hn =>
      cases h
      have hname : n.1.toList = s := by simpa using List.find?_some hn
      exact ⟨o, n, List.mem_of_find?_eq_some hn, rfl, by rw [hname]⟩
    · cases h
  · split at h
    · cases h
    · split at h
      · cases h
      · cases h
  · cases h

theorem accepts_of_readFormat {x : Format} (h : readFormat path v = .ok x) :
    Field.format.Accepts v x := by
  obtain ⟨o, n, hn, rfl, rfl⟩ := of_readName h
  have hnames : ∀ n ∈ formatNames, n.1 = n.2.name := by decide
  exact ⟨o, by rw [hnames n hn]; rfl⟩

theorem accepts_of_readTaxonomy {x : Taxonomy} (h : readTaxonomy path v = .ok x) :
    Field.taxonomy.Accepts v x := by
  obtain ⟨o, n, hn, rfl, rfl⟩ := of_readName h
  have hnames : ∀ n ∈ taxonomyNames, n.1 = n.2.name := by decide
  exact ⟨o, by rw [hnames n hn]; rfl⟩

theorem accepts_of_readBool {b : Bool} (h : readBool path v = .ok b) :
    Field.qualifyMethods.Accepts v b := by
  unfold readBool at h
  split at h
  · next o b' =>
    cases h
    exact ⟨o, rfl⟩
  · cases h

/-- The settings that are read from a table hold what its values stand for. -/
theorem accepts_of_readTable {table : Entries} {s : OutputSettings} (h : readTable table = .ok s)
    (hv : table.lookup f.key = some v) : f.Accepts v (f.ofSettings s) := by
  obtain ⟨format, hformat, h⟩ := of_bind_eq_ok h
  obtain ⟨qualify, hqualify, h⟩ := of_bind_eq_ok h
  obtain ⟨taxonomy, htaxonomy, h⟩ := of_bind_eq_ok h
  cases h
  cases f with
  | format =>
    rw [Field.key] at hv
    rw [hv] at hformat
    exact accepts_of_readFormat hformat
  | taxonomy =>
    rw [Field.key] at hv
    rw [hv] at htaxonomy
    exact accepts_of_readTaxonomy htaxonomy
  | qualifyMethods =>
    rw [Field.key] at hv
    rw [hv] at hqualify
    exact accepts_of_readBool hqualify

/-- Nothing else in a table matters. -/
theorem readTable_congr {table table' : Entries}
    (h : ∀ f : Field, table.lookup f.key = table'.lookup f.key) :
    readTable table = readTable table' := by
  have hformat := h .format
  have htaxonomy := h .taxonomy
  have hqualify := h .qualifyMethods
  simp only [Field.key] at hformat htaxonomy hqualify
  rw [readTable, readTable, hformat, htaxonomy, hqualify]

end Read

/-! ## Layers and fields -/

/-- A layer gives a field a value. -/
def Gives (f : Field) (v : Value) (layer : Entries) : Prop :=
  ∃ o table, layer.lookup sectionKey = some (.table o table) ∧ table.lookup f.key = some v

/-- A layer does not speak of a field: it has no section, or a table without the field. -/
def Omits (f : Field) (layer : Entries) : Prop :=
  layer.lookup sectionKey = none
    ∨ ∃ o table, layer.lookup sectionKey = some (.table o table) ∧ table.lookup f.key = none

/-- The sections of two layers are the same, or they are tables that differ in one field at most. -/
def SameBut (f : Field) (layer layer' : Entries) : Prop :=
  layer.lookup sectionKey = layer'.lookup sectionKey
    ∨ ∃ o o' table table', layer.lookup sectionKey = some (.table o table)
      ∧ layer'.lookup sectionKey = some (.table o' table')
      ∧ ∀ k ≠ f.key, table.lookup k = table'.lookup k

/-- The entries of a value that is a table. -/
def tableOf : Option Value → Entries
  | some (.table _ entries) => entries
  | _ => []

section Merge

variable {lower upper lower' upper' : Entries}

theorem tableOf_of_isPlain (h : v.IsPlain) : tableOf (some v) = [] := by
  unfold tableOf
  split
  · next hv => exact absurd (Option.some.inj hv) (h _ _)
  · rfl

/-- On top of anything, a table is a table. -/
theorem merge_table (below : Option Value) (o : Origin) {entries : Entries}
    (keys : (entries.map Prod.fst).Nodup) :
    ∃ merged, Option.merge Value.merge below (some (.table o entries)) = some (.table o merged)
      ∧ ∀ k, merged.lookup k
        = Option.merge Value.merge ((tableOf below).lookup k) (entries.lookup k) := by
  rcases below with _ | below
  · exact ⟨entries, rfl, fun k => by simp [tableOf]⟩
  · rcases below.table_or_isPlain with ⟨o', entries', rfl⟩ | hplain
    · exact ⟨mergeEntries entries' entries, by simp,
        fun k => lookup_mergeEntries entries' keys k⟩
    · exact ⟨entries, by simp [Value.isPlain_merge hplain],
        fun k => by simp [tableOf_of_isPlain hplain]⟩

theorem merge_plain (below : Option Value) (h : v.IsPlain) :
    Option.merge Value.merge below (some v) = some v := by
  cases below with
  | none => rfl
  | some below => rw [Option.merge_some_some, Value.merge_of_isPlain below h]

/-- The section of merged settings, where the upper one is a table. -/
theorem lookup_section_merge (lower : Entries) (hd : Entries.Distinct upper) {o : Origin}
    {table : Entries} (h : upper.lookup sectionKey = some (.table o table)) :
    ∃ merged, (mergeEntries lower upper).lookup sectionKey = some (.table o merged)
      ∧ ∀ k, merged.lookup k
        = Option.merge Value.merge ((tableOf (lower.lookup sectionKey)).lookup k) (table.lookup k) := by
  have htable := Value.distinct_table_iff.mp (hd.lookup h)
  rw [lookup_mergeEntries lower hd.keys, h]
  exact merge_table _ o htable.keys

/-- A value that is not a table is all that is left of what it is merged from. -/
theorem Value.merge_eq_right {old : Value} (h : v.IsPlain ∨ (old.merge v).IsPlain) :
    old.merge v = v := by
  rcases old.table_or_isPlain with ⟨o, entries, rfl⟩ | hold
  · rcases v.table_or_isPlain with ⟨o', entries', rfl⟩ | hv
    · rw [Value.merge_table] at h
      rcases h with h | h
      · exact absurd rfl (h _ _)
      · exact absurd rfl (h _ _)
    · exact Value.merge_of_isPlain _ hv
  · exact Value.isPlain_merge hold v

/-- What a layer gives goes on top, and replaces what is below unless both are tables. -/
theorem Gives.merge_of_upper (h : Gives f v upper) (hd : Entries.Distinct upper) (lower : Entries) :
    ∃ w, Gives f w (mergeEntries lower upper) ∧ (v.IsPlain ∨ w.IsPlain → w = v) := by
  obtain ⟨o, table, hsection, hv⟩ := h
  obtain ⟨merged, hmerged, hlookup⟩ := lookup_section_merge lower hd hsection
  have hfield := hlookup f.key
  rw [hv] at hfield
  cases hold : (tableOf (lower.lookup sectionKey)).lookup f.key with
  | none =>
    rw [hold, Option.merge_none_left] at hfield
    exact ⟨v, ⟨o, merged, hmerged, hfield⟩, fun _ => rfl⟩
  | some old =>
    rw [hold, Option.merge_some_some] at hfield
    exact ⟨old.merge v, ⟨o, merged, hmerged, hfield⟩, Value.merge_eq_right⟩

/-- A layer that does not speak of a field leaves it alone. -/
theorem Gives.merge_of_lower (h : Gives f v lower) (hd : Entries.Distinct upper)
    (homits : Omits f upper) : Gives f v (mergeEntries lower upper) := by
  obtain ⟨o, table, hsection, hv⟩ := h
  rcases homits with hnone | ⟨o', table', hsection', hnone⟩
  · refine ⟨o, table, ?_, hv⟩
    rw [lookup_mergeEntries lower hd.keys, hnone, hsection, Option.merge_none_right]
  · obtain ⟨merged, hmerged, hlookup⟩ := lookup_section_merge lower hd hsection'
    refine ⟨o', merged, hmerged, ?_⟩
    rw [hlookup, hsection, tableOf, hv, hnone, Option.merge_none_right]

theorem Gives.foldl_merge {layers : List Entries} (h : Gives f v lower)
    (hd : ∀ layer ∈ layers, Entries.Distinct layer) (homits : ∀ layer ∈ layers, Omits f layer) :
    Gives f v (layers.foldl mergeEntries lower) := by
  induction layers generalizing lower with
  | nil => exact h
  | cons layer layers ih =>
    obtain ⟨hlayer, hd⟩ := List.forall_mem_cons.mp hd
    obtain ⟨homit, homits⟩ := List.forall_mem_cons.mp homits
    exact ih (h.merge_of_lower hlayer homit) hd homits

/-- The highest layer that gives a field decides it. -/
theorem gives_stack {below above : List Entries} {layer : Entries}
    (hd : ∀ l ∈ below ++ layer :: above, Entries.Distinct l) (h : Gives f v layer)
    (homits : ∀ l ∈ above, Omits f l) :
    ∃ w, Gives f w (stack (below ++ layer :: above)) ∧ (v.IsPlain ∨ w.IsPlain → w = v) := by
  obtain ⟨-, hd⟩ := List.forall_mem_append.mp hd
  obtain ⟨hlayer, habove⟩ := List.forall_mem_cons.mp hd
  obtain ⟨w, hw, heq⟩ := h.merge_of_upper hlayer (stack below)
  refine ⟨w, ?_, heq⟩
  rw [stack, List.foldl_append, List.foldl_cons]
  exact hw.foldl_merge habove homits

/-! ## What is masked -/

theorem SameBut.refl (f : Field) (layer : Entries) : SameBut f layer layer := Or.inl rfl

theorem SameBut.lookup_tableOf (h : SameBut f lower lower') {k : Key} (hk : k ≠ f.key) :
    (tableOf (lower.lookup sectionKey)).lookup k = (tableOf (lower'.lookup sectionKey)).lookup k := by
  rcases h with h | ⟨o, o', table, table', h, h', hsame⟩
  · rw [h]
  · rw [h, h']
    exact hsame k hk

theorem SameBut.merge_tables (h : SameBut f lower lower') (hd : Entries.Distinct upper)
    (hd' : Entries.Distinct upper') {o o' : Origin} {table table' : Entries}
    (hsection : upper.lookup sectionKey = some (.table o table))
    (hsection' : upper'.lookup sectionKey = some (.table o' table'))
    (hsame : ∀ k ≠ f.key, table.lookup k = table'.lookup k) :
    SameBut f (mergeEntries lower upper) (mergeEntries lower' upper') := by
  obtain ⟨merged, hmerged, hlookup⟩ := lookup_section_merge lower hd hsection
  obtain ⟨merged', hmerged', hlookup'⟩ := lookup_section_merge lower' hd' hsection'
  refine Or.inr ⟨o, o', merged, merged', hmerged, hmerged', fun k hk => ?_⟩
  rw [hlookup, hlookup', h.lookup_tableOf hk, hsame k hk]

theorem SameBut.merge (h : SameBut f lower lower') (hd : Entries.Distinct upper)
    (hd' : Entries.Distinct upper') (hu : SameBut f upper upper') :
    SameBut f (mergeEntries lower upper) (mergeEntries lower' upper') := by
  rcases hu with heq | ⟨o, o', table, table', hsection, hsection', hsame⟩
  · cases hsection : upper.lookup sectionKey with
    | none =>
      rw [SameBut, lookup_mergeEntries lower hd.keys, lookup_mergeEntries lower' hd'.keys, ← heq,
        hsection, Option.merge_none_right, Option.merge_none_right]
      exact h
    | some u =>
      have hsection' := heq.symm.trans hsection
      rcases u.table_or_isPlain with ⟨o, table, rfl⟩ | hplain
      · exact h.merge_tables hd hd' hsection hsection' fun _ _ => rfl
      · -- a section that is not a table replaces both
        refine Or.inl ?_
        rw [lookup_mergeEntries lower hd.keys, lookup_mergeEntries lower' hd'.keys, hsection,
          hsection', merge_plain _ hplain, merge_plain _ hplain]
  · exact h.merge_tables hd hd' hsection hsection' hsame

theorem SameBut.foldl_merge {layers layers' : List Entries} (h : SameBut f lower lower')
    (hd : ∀ layer ∈ layers, Entries.Distinct layer) (hd' : ∀ layer ∈ layers', Entries.Distinct layer)
    (hlayers : List.Forall₂ (SameBut f) layers layers') :
    SameBut f (layers.foldl mergeEntries lower) (layers'.foldl mergeEntries lower') := by
  induction hlayers generalizing lower lower' with
  | nil => exact h
  | cons hlayer _ ih =>
    obtain ⟨hfirst, hd⟩ := List.forall_mem_cons.mp hd
    obtain ⟨hfirst', hd'⟩ := List.forall_mem_cons.mp hd'
    exact ih (h.merge hfirst hfirst' hlayer) hd hd'

/-- Two stacks that differ below a layer in what the layer gives are read alike. -/
theorem ofEntries_congr {entries entries' : Entries} (h : SameBut f entries entries')
    (hv : Gives f v entries) (hv' : Gives f v entries') :
    OutputSettings.ofEntries entries = OutputSettings.ofEntries entries' := by
  obtain ⟨o, table, hsection, hv⟩ := hv
  obtain ⟨o', table', hsection', hv'⟩ := hv'
  have htable : readTable table = readTable table' := by
    refine readTable_congr fun g => ?_
    by_cases hg : g.key = f.key
    · rw [hg, hv, hv']
    · simpa [hsection, hsection', tableOf] using h.lookup_tableOf hg
  rw [OutputSettings.ofEntries, OutputSettings.ofEntries, hsection, hsection']
  exact htable

/-- What the layers below say of a field that a layer gives is not looked at. -/
theorem ofEntries_stack_congr {below below' above : List Entries} {layer : Entries}
    (hd : ∀ l ∈ below ++ layer :: above, Entries.Distinct l)
    (hd' : ∀ l ∈ below' ++ layer :: above, Entries.Distinct l) (hgives : Gives f v layer)
    (hplain : v.IsPlain) (homits : ∀ l ∈ above, Omits f l)
    (hsame : List.Forall₂ (SameBut f) below below') :
    OutputSettings.ofEntries (stack (below ++ layer :: above))
      = OutputSettings.ofEntries (stack (below' ++ layer :: above)) := by
  obtain ⟨w, hw, heq⟩ := gives_stack hd hgives homits
  obtain ⟨w', hw', heq'⟩ := gives_stack hd' hgives homits
  rw [heq (Or.inl hplain)] at hw
  rw [heq' (Or.inl hplain)] at hw'
  have habove : List.Forall₂ (SameBut f) (layer :: above) (layer :: above) :=
    List.forall₂_same.mpr fun l _ => SameBut.refl f l
  have hall : List.Forall₂ (SameBut f) (below ++ layer :: above) (below' ++ layer :: above) :=
    List.rel_append hsame habove
  exact ofEntries_congr ((SameBut.refl f []).foldl_merge hd hd' hall) hw hw'

end Merge

/-! ## Loaded settings -/

section Load

variable {h : Host} {named : Option Path}

theorem load_eq {ls : List Entries} (hpresent : isPresent h named = true)
    (hls : layers h named = .ok ls) :
    load h named = (OutputSettings.ofEntries (stack ls)).mapError .misfit := by
  simp only [load, if_pos hpresent, hls]
  cases OutputSettings.ofEntries (stack ls) <;> rfl

theorem Gives.ofEntries_eq {entries : Entries} (h : Gives f v entries) :
    ∃ table, table.lookup f.key = some v ∧ OutputSettings.ofEntries entries = readTable table := by
  obtain ⟨o, table, hsection, hv⟩ := h
  exact ⟨table, hv, by simp [OutputSettings.ofEntries, hsection, readSection]⟩

/-- Settings that are loaded hold what the highest layer gives. -/
theorem accepts_of_load {below above : List Entries} {layer : Entries} {s : OutputSettings}
    (hpresent : isPresent h named = true) (hlayers : layers h named = .ok (below ++ layer :: above))
    (hgives : Gives f v layer) (homits : ∀ l ∈ above, Omits f l) (hload : load h named = .ok s) :
    f.Accepts v (f.ofSettings s) := by
  obtain ⟨w, hw, heq⟩ := gives_stack (distinct_of_layers hlayers) hgives homits
  obtain ⟨table, hlookup, htable⟩ := hw.ofEntries_eq
  rw [load_eq hpresent hlayers, htable] at hload
  cases hread : readTable table with
  | error e =>
    rw [hread] at hload
    cases hload
  | ok s' =>
    rw [hread] at hload
    cases hload
    obtain ⟨o, hscalar⟩ := accepts_of_readTable hread hlookup
    -- what is accepted is not a table, so it was not merged with anything
    have hwv : w = v := heq (Or.inr (hscalar ▸ Value.isPlain_scalar o _))
    exact ⟨o, hwv ▸ hscalar⟩

end Load

end SpanIndex.Settings
