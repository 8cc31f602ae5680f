import Mathlib.Data.List.Nodup
import SpanIndex.Toml.Read

/-!
# Tables of a TOML document

No table of a document gives a value to a key twice. A pair that would do so is refused, and where a table is
written in several places, each of them only adds keys or goes into a table that is there already.

The tables in arrays are left out: a path of keys does not lead there.
-/

namespace SpanIndex.Toml

/-! ## Distinct keys -/

/-- The keys of a table are distinct, and so are those of the tables in it. -/
inductive Distinct : Toml → Prop
  | table {entries : List (Key × Toml)} (keys : (entries.map Prod.fst).Nodup)
    (values : ∀ e ∈ entries, Distinct e.2) : Distinct (.table entries)
  | plain {v : Toml} (h : ∀ entries, v ≠ .table entries) : Distinct v

/-- The same of the entries of a table. -/
structure DistinctEntries (entries : List (Key × Toml)) : Prop where
  keys : (entries.map Prod.fst).Nodup
  values : ∀ e ∈ entries, e.2.Distinct

theorem distinct_table_iff {entries : List (Key × Toml)} :
    (Toml.table entries).Distinct ↔ DistinctEntries entries := by
  constructor
  · intro h
    cases h with
    | table keys values => exact ⟨keys, values⟩
    | plain h => exact absurd rfl (h entries)
  · intro h
    exact .table h.keys h.values

/-- A key that is not there yet can be added at the end. -/
theorem nodup_keys_concat {α : Type} {entries : List (Key × α)} {k : Key} {a : α}
    (keys : (entries.map Prod.fst).Nodup) (hk : ∀ e ∈ entries, e.1 ≠ k) :
    ((entries ++ [(k, a)]).map Prod.fst).Nodup := by
  rw [List.map_append, List.map_singleton, List.nodup_append]
  refine ⟨keys, List.nodup_singleton k, ?_⟩
  intro j hj l hl
  obtain ⟨e, he, rfl⟩ := List.mem_map.mp hj
  rw [List.mem_singleton.mp hl]
  exact hk e he

theorem entriesToml_eq_map (entries : Entries) :
    entriesToml entries = entries.map fun e => (e.1, e.2.toToml) := by
  induction entries with
  | nil => rfl
  | cons e entries ih =>
    obtain ⟨k, item⟩ := e
    rw [entriesToml, ih, List.map_cons]

/-! ## Tables under construction -/

namespace Entries

variable {entries out : Entries} {k : Key} {item : Item} {v : Toml}

/-- The same of the entries of a table that is still under construction. -/
def Distinct (entries : Entries) : Prop := DistinctEntries (entriesToml entries)

theorem distinct_nil : Distinct [] := ⟨List.nodup_nil, fun _ he => nomatch he⟩

theorem keys_entriesToml (entries : Entries) :
    (entriesToml entries).map Prod.fst = entries.map Prod.fst := by
  rw [entriesToml_eq_map, List.map_map]
  rfl

theorem distinct_iff : entries.Distinct
    ↔ (entries.map Prod.fst).Nodup ∧ ∀ e ∈ entries, e.2.toToml.Distinct := by
  constructor
  · intro h
    refine ⟨keys_entriesToml entries ▸ h.keys, fun e he => h.values (e.1, e.2.toToml) ?_⟩
    rw [entriesToml_eq_map]
    exact List.mem_map_of_mem he
  · rintro ⟨keys, values⟩
    refine ⟨(keys_entriesToml entries).symm ▸ keys, ?_⟩
    rw [entriesToml_eq_map, List.forall_mem_map]
    exact values

theorem Distinct.table (h : entries.Distinct) (style : Style) :
    (Item.table style entries).toToml.Distinct :=
  distinct_table_iff.mpr h

/-- Several tables with one name are the items of an array. -/
theorem distinct_tables (elements : List Entries) : (Item.tables elements).toToml.Distinct :=
  .plain fun _ => Toml.noConfusion

theorem Distinct.lookup (h : entries.Distinct) (hk : entries.lookup k = some item) :
    item.toToml.Distinct := by
  obtain ⟨before, after, rfl, -⟩ := List.lookup_eq_some_iff.mp hk
  exact (distinct_iff.mp h).2 (k, item) (by simp)

theorem Distinct.lookup_table (h : entries.Distinct) {style : Style} {es : Entries}
    (hk : entries.lookup k = some (.table style es)) : es.Distinct :=
  distinct_table_iff.mp (h.lookup hk)

theorem Distinct.add (h : entries.Distinct) (hk : entries.lookup k = none)
    (hitem : item.toToml.Distinct) : (entries.add k item).Distinct := by
  obtain ⟨keys, values⟩ := distinct_iff.mp h
  have habsent : ∀ e ∈ entries, e.1 ≠ k := by
    intro e he
    have hne : k ≠ e.1 := by simpa using List.lookup_eq_none_iff.mp hk e he
    exact hne.symm
  refine distinct_iff.mpr ⟨nodup_keys_concat keys habsent, ?_⟩
  rw [Entries.add, List.forall_mem_append]
  exact ⟨values, List.forall_mem_singleton.mpr hitem⟩

theorem Distinct.replace (h : entries.Distinct) (hitem : item.toToml.Distinct) :
    (entries.replace k item).Distinct := by
  obtain ⟨keys, values⟩ := distinct_iff.mp h
  have hkeys : (entries.replace k item).map Prod.fst = entries.map Prod.fst := by
    rw [Entries.replace, List.map_map]
    refine List.map_congr_left fun e _ => ?_
    by_cases hk : e.1 = k <;> simp [hk]
  refine distinct_iff.mpr ⟨hkeys ▸ keys, ?_⟩
  rw [Entries.replace, List.forall_mem_map]
  intro e he
  split
  · exact hitem
  · exact values e he

/-- A value goes under a key that is not there yet. -/
theorem Distinct.insert {key : Key} {path : List Key} (h : entries.Distinct) (hv : v.Distinct)
    (hout : Entries.insert key v path entries = some out) : out.Distinct := by
  induction path generalizing entries out with
  | nil =>
    rw [Entries.insert] at hout
    split at hout
    · cases hout
    · next hk =>
      cases hout
      exact h.add hk hv
  | cons k path ih =>
    rw [Entries.insert] at hout
    split at hout
    · next hk =>
      obtain ⟨es, hes, rfl⟩ := Option.map_eq_some_iff.mp hout
      exact h.add hk ((ih distinct_nil hes).table .dotted)
    · next es hk =>
      obtain ⟨es', hes, rfl⟩ := Option.map_eq_some_iff.mp hout
      exact h.replace ((ih (h.lookup_table hk) hes).table .dotted)
    · next es hk =>
      split at hout
      · cases hout
      · obtain ⟨es', hes, rfl⟩ := Option.map_eq_some_iff.mp hout
        exact h.replace ((ih (h.lookup_table hk) hes).table .implicit)
    · split at hout
      · cases hout
      · obtain ⟨es', -, rfl⟩ := Option.map_eq_some_iff.mp hout
        exact h.replace (distinct_tables _)
    · cases hout

theorem Distinct.modifyAt {f : Entries → Option Entries} {path : List Key}
    (hf : ∀ es es', Entries.Distinct es → f es = some es' → Entries.Distinct es')
    (h : entries.Distinct) (hout : Entries.modifyAt f path entries = some out) : out.Distinct := by
  induction path generalizing entries out with
  | nil => exact hf entries out h hout
  | cons k path ih =>
    rw [Entries.modifyAt] at hout
    split at hout
    · next style es hk =>
      obtain ⟨es', hes, rfl⟩ := Option.map_eq_some_iff.mp hout
      exact h.replace ((ih (h.lookup_table hk) hes).table style)
    · obtain ⟨es', -, rfl⟩ := Option.map_eq_some_iff.mp hout
      exact h.replace (distinct_tables _)
    · cases hout

theorem Distinct.modifyParent {f : Key → Entries → Option Entries} {path : List Key}
    (hf : ∀ k es es', Entries.Distinct es → f k es = some es' → Entries.Distinct es')
    (h : entries.Distinct) (hout : Entries.modifyParent f path entries = some out) :
    out.Distinct := by
  fun_induction Entries.modifyParent f path entries generalizing out with
  | case1 => cases hout
  | case2 k entries => exact hf k entries out h hout
  | case3 entries k ks _ hk ih =>
    obtain ⟨es, hes, rfl⟩ := Option.map_eq_some_iff.mp hout
    exact h.add hk ((ih distinct_nil hes).table .implicit)
  | case4 entries k ks _ style es hk ih =>
    obtain ⟨es', hes, rfl⟩ := Option.map_eq_some_iff.mp hout
    exact h.replace ((ih (h.lookup_table hk) hes).table style)
  | case5 entries k ks _ es earlier hk ih =>
    obtain ⟨es', -, rfl⟩ := Option.map_eq_some_iff.mp hout
    exact h.replace (distinct_tables _)
  | case6 => cases hout

theorem Distinct.openTable {path : List Key} (h : entries.Distinct)
    (hout : Entries.openTable path entries = some out) : out.Distinct := by
  refine h.modifyParent (fun k es es' hes hes' => ?_) hout
  split at hes'
  · next hk =>
    cases hes'
    exact hes.add hk (distinct_nil.table .explicit)
  · next inner hk =>
    cases hes'
    exact hes.replace ((hes.lookup_table hk).table .explicit)
  · cases hes'

theorem Distinct.openElement {path : List Key} (h : entries.Distinct)
    (hout : Entries.openElement path entries = some out) : out.Distinct := by
  refine h.modifyParent (fun k es es' hes hes' => ?_) hout
  split at hes'
  · next hk =>
    cases hes'
    exact hes.add hk (distinct_tables _)
  · cases hes'
    exact hes.replace (distinct_tables _)
  · cases hes'

end Entries

theorem distinct_foldlM_insert {pairs : List (List Key × Key × Toml)} {entries out : Entries}
    (h : entries.Distinct) (hpairs : ∀ p ∈ pairs, p.2.2.Distinct)
    (hout : pairs.foldlM (fun entries (path, key, v) => Entries.insert key v path entries) entries
      = some out) : out.Distinct := by
  induction pairs generalizing entries with
  | nil =>
    cases hout
    exact h
  | cons p pairs ih =>
    obtain ⟨hp, hpairs⟩ := List.forall_mem_cons.mp hpairs
    obtain ⟨es, hes, hout⟩ := Option.bind_eq_some_iff.mp hout
    exact ih (h.insert hp hes) hpairs hout

theorem distinct_tableOfPairs {pairs : List (List Key × Key × Toml)} {v : Toml}
    (hpairs : ∀ p ∈ pairs, p.2.2.Distinct) (hv : tableOfPairs pairs = some v) : v.Distinct := by
  obtain ⟨entries, hentries, rfl⟩ := Option.map_eq_some_iff.mp hv
  exact distinct_table_iff.mpr (distinct_foldlM_insert Entries.distinct_nil hpairs hentries)

/-! ## Values -/

section Values

variable {v : Toml} {text rest : List Char} {result : Toml × List Char}

theorem distinct_integer? {n : Int} (h : integer? n = some v) : v.Distinct := by
  rw [integer?] at h
  split at h
  · cases h
    exact .plain fun _ => Toml.noConfusion
  · cases h

theorem distinct_float? {negative : Bool} {whole fraction : List Char} {exponent : Int}
    (h : float? negative whole fraction exponent = some v) : v.Distinct := by
  rw [float?] at h
  split at h
  · cases h
  · cases h
    exact .plain fun _ => Toml.noConfusion

theorem distinct_of_map {value? : Option Toml} (hvalue : ∀ v, value? = some v → v.Distinct)
    (h : value?.map (·, rest) = some result) : result.1.Distinct := by
  obtain ⟨v, hv, rfl⟩ := Option.map_eq_some_iff.mp h
  exact hvalue v hv

theorem distinct_readAfterWhole {negative : Bool} {whole : List Char}
    (h : readAfterWhole negative whole text = some result) : result.1.Distinct := by
  have hfloat : ∀ fraction exponent v, float? negative whole fraction exponent = some v →
      v.Distinct := fun _ _ _ => distinct_float?
  unfold readAfterWhole at h
  split at h
  · split at h
    · cases h
    · split at h
      · cases h
      · exact distinct_of_map (hfloat _ _) h
  · split at h
    · split at h
      · cases h
      · exact distinct_of_map (hfloat _ _) h
    · exact distinct_of_map (fun v => distinct_integer?) h
  · exact distinct_of_map (fun v => distinct_integer?) h

theorem distinct_readBased {base : Nat} {isDigit : Char → Bool}
    (h : readBased base isDigit text = some result) : result.1.Distinct := by
  rw [readBased] at h
  split at h
  · cases h
  · exact distinct_of_map (fun v => distinct_integer?) h

theorem distinct_readUnsigned {negative : Bool} (h : readUnsigned negative text = some result) :
    result.1.Distinct := by
  unfold readUnsigned at h
  split at h
  · cases h
    exact .plain fun _ => Toml.noConfusion
  · cases h
    exact .plain fun _ => Toml.noConfusion
  · split at h
    · cases h
    · exact distinct_readAfterWhole h

theorem distinct_readNumber (h : readNumber text = some result) : result.1.Distinct := by
  unfold readNumber at h
  split at h
  · exact distinct_readBased h
  · exact distinct_readBased h
  · exact distinct_readBased h
  · exact distinct_readUnsigned h

theorem distinct_readMoment (h : readMoment text = some result) : result.1.Distinct := by
  rw [readMoment] at h
  split at h
  all_goals
    obtain ⟨rest, -, hrest⟩ := Option.bind_eq_some_iff.mp h
    cases hrest
    exact .plain fun _ => Toml.noConfusion

/-- A value has distinct keys if the values in its pairs have. -/
theorem distinct_readValue_succ {fuel depth : Nat}
    (hpairs : ∀ depth text result, readPairs fuel depth text = some result →
      ∀ p ∈ result.1, p.2.2.Distinct)
    (h : readValue (fuel + 1) depth text = some result) : result.1.Distinct := by
  unfold readValue at h
  split at h
  · cases h
    exact .plain fun _ => Toml.noConfusion
  · cases h
    exact .plain fun _ => Toml.noConfusion
  · split at h
    · obtain ⟨items, -, rfl⟩ := Option.map_eq_some_iff.mp h
      exact .plain fun _ => Toml.noConfusion
    · cases h
  · split at h
    · split at h
      · cases h
        exact distinct_table_iff.mpr Entries.distinct_nil
      · split at h
        · next pairs rest hread =>
          exact distinct_of_map (fun v => distinct_tableOfPairs (hpairs _ _ _ hread)) h
        · cases h
    · cases h
  · obtain ⟨string, -, rfl⟩ := Option.map_eq_some_iff.mp h
    exact .plain fun _ => Toml.noConfusion
  · obtain ⟨string, -, rfl⟩ := Option.map_eq_some_iff.mp h
    exact .plain fun _ => Toml.noConfusion
  · split at h
    · next hmoment =>
      cases h
      exact distinct_readMoment hmoment
    · exact distinct_readNumber h

theorem distinct_readPairs_succ {fuel depth : Nat} {pairs : List (List Key × Key × Toml)}
    (hvalue : ∀ depth text result, readValue fuel depth text = some result → result.1.Distinct)
    (hpairs : ∀ depth text result, readPairs fuel depth text = some result →
      ∀ p ∈ result.1, p.2.2.Distinct)
    (h : readPairs (fuel + 1) depth text = some (pairs, rest)) : ∀ p ∈ pairs, p.2.2.Distinct := by
  unfold readPairs at h
  split at h
  · split at h
    · cases h
    · next v _ hread =>
      have hv : v.Distinct := hvalue _ _ _ hread
      simp only at h
      split at h
      · obtain ⟨more, hmore, hall⟩ := Option.map_eq_some_iff.mp h
        cases hall
        exact List.forall_mem_cons.mpr ⟨hv, hpairs _ _ _ hmore⟩
      · cases h
        exact List.forall_mem_singleton.mpr hv
      · cases h
  · cases h

/-- The readers of values and pairs call each other with less fuel. -/
theorem distinct_readValue_and_readPairs (fuel : Nat) :
    (∀ depth text result, readValue fuel depth text = some result → result.1.Distinct)
      ∧ ∀ depth text result, readPairs fuel depth text = some result →
        ∀ p ∈ result.1, p.2.2.Distinct := by
  induction fuel with
  | zero =>
    refine ⟨fun depth text result h => ?_, fun depth text result h => ?_⟩
    · cases h
    · cases h
  | succ fuel ih =>
    obtain ⟨hvalue, hpairs⟩ := ih
    exact ⟨fun _ _ _ => distinct_readValue_succ hpairs,
      fun _ _ _ => distinct_readPairs_succ hvalue hpairs⟩

end Values

/-! ## Documents -/

section Documents

variable {d d' : Document} {text rest : List Char}

theorem distinct_readHeader (h : d.root.Distinct) (hread : readHeader d text = some (d', rest)) :
    d'.root.Distinct := by
  unfold readHeader at hread
  split at hread
  · split at hread
    · obtain ⟨root, hroot, hread⟩ := Option.bind_eq_some_iff.mp hread
      obtain ⟨rest, -, hread⟩ := Option.bind_eq_some_iff.mp hread
      cases hread
      exact h.openElement hroot
    · cases hread
  · split at hread
    · obtain ⟨root, hroot, hread⟩ := Option.bind_eq_some_iff.mp hread
      obtain ⟨rest, -, hread⟩ := Option.bind_eq_some_iff.mp hread
      cases hread
      exact h.openTable hroot
    · cases hread

theorem distinct_readPairLine (h : d.root.Distinct)
    (hread : readPairLine d text = some (d', rest)) : d'.root.Distinct := by
  unfold readPairLine at hread
  split at hread
  · split at hread
    · next v _ hv =>
      have hvalue : v.Distinct := (distinct_readValue_and_readPairs _).1 _ _ _ hv
      obtain ⟨root, hroot, hread⟩ := Option.bind_eq_some_iff.mp hread
      obtain ⟨rest, -, hread⟩ := Option.bind_eq_some_iff.mp hread
      cases hread
      exact h.modifyAt (fun es es' hes => hes.insert hvalue) hroot
    · cases hread
  · cases hread

/-- Every line keeps the keys distinct. -/
theorem distinct_readLinesOf {fuel : Nat} (h : d.root.Distinct)
    (hread : readLinesOf fuel d text = some d') : d'.root.Distinct := by
  induction fuel generalizing d text with
  | zero => cases hread
  | succ fuel ih =>
    unfold readLinesOf at hread
    split at hread
    · cases hread
      exact h
    · split at hread
      · next hheader => exact ih (distinct_readHeader h hheader) hread
      · cases hread
    · split at hread
      · exact ih h hread
      · cases hread
    · split at hread
      · exact ih h hread
      · split at hread
        · next hpair => exact ih (distinct_readPairLine h hpair) hread
        · cases hread

/-- No table of a document gives a value to a key twice. -/
theorem distinctEntries_read {entries : List (Key × Toml)} (h : read text = some entries) :
    DistinctEntries entries := by
  obtain ⟨d, hd, rfl⟩ := Option.map_eq_some_iff.mp h
  exact distinct_readLinesOf Entries.distinct_nil hd

end Documents

end SpanIndex.Toml
