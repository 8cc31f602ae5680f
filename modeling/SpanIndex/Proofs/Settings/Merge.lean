import SpanIndex.Proofs.Toml
import SpanIndex.Settings.Load

/-!
# Settings on top of each other

What a key stands for in merged settings depends only on what it stands for in each of them
(`lookup_mergeEntries`, `lookup_foldl_mergeEntries`), provided that no table gives a value to a key twice.
That is so in every layer (`distinct_of_layers`): in files because TOML refuses it, and in the environment
because a later value replaces an earlier one.
-/

namespace SpanIndex.Settings

/-! ## Distinct keys -/

/-- A value that is not a table. -/
def Value.IsPlain (v : Value) : Prop := ∀ o entries, v ≠ .table o entries

/-- The keys of a table are distinct, and so are those of the tables in it. -/
inductive Value.Distinct : Value → Prop
  | table {o : Origin} {entries : Entries} (keys : (entries.map Prod.fst).Nodup)
    (values : ∀ e ∈ entries, Distinct e.2) : Distinct (.table o entries)
  | plain {v : Value} (h : v.IsPlain) : Distinct v

/-- The same of the entries of a table. -/
structure Entries.Distinct (entries : Entries) : Prop where
  keys : (entries.map Prod.fst).Nodup
  values : ∀ e ∈ entries, e.2.Distinct

theorem Value.distinct_table_iff {o : Origin} {entries : Entries} :
    (Value.table o entries).Distinct ↔ Entries.Distinct entries := by
  constructor
  · intro h
    cases h with
    | table keys values => exact ⟨keys, values⟩
    | plain h => exact absurd rfl (h o entries)
  · intro h
    exact .table h.keys h.values

theorem Value.isPlain_scalar (o : Origin) (s : Scalar) : (Value.scalar o s).IsPlain :=
  fun _ _ => Value.noConfusion

theorem Value.isPlain_array (o : Origin) (items : List Value) : (Value.array o items).IsPlain :=
  fun _ _ => Value.noConfusion

/-- A value either is a table or is not. -/
theorem Value.table_or_isPlain (v : Value) : (∃ o entries, v = .table o entries) ∨ v.IsPlain := by
  cases v with
  | scalar o s => exact Or.inr (isPlain_scalar o s)
  | array o items => exact Or.inr (isPlain_array o items)
  | table o entries => exact Or.inl ⟨o, entries, rfl⟩

namespace Entries

variable {entries lower upper : Entries} {j k : Key} {v : Value}

theorem distinct_nil : Distinct [] := ⟨List.nodup_nil, fun _ he => nomatch he⟩

theorem distinct_singleton (k : Key) (hv : v.Distinct) : Distinct [(k, v)] :=
  ⟨List.nodup_singleton k, List.forall_mem_singleton.mpr hv⟩

theorem Distinct.lookup (h : Distinct entries) (hk : entries.lookup k = some v) : v.Distinct := by
  obtain ⟨before, after, rfl, -⟩ := List.lookup_eq_some_iff.mp hk
  exact h.values (k, v) (by simp)

theorem Distinct.set (h : Distinct entries) (hv : v.Distinct) : Distinct (Entries.set entries k v) := by
  have hsub : (entries.filter fun e => e.1 != k).Sublist entries := List.filter_sublist
  refine ⟨Toml.nodup_keys_concat ((hsub.map Prod.fst).nodup h.keys) ?_, ?_⟩
  · intro e he
    simpa using (List.mem_filter.mp he).2
  · rw [Entries.set, List.forall_mem_append]
    exact ⟨fun e he => h.values e (hsub.mem he), List.forall_mem_singleton.mpr hv⟩

@[simp] theorem lookup_set_self (entries : Entries) (k : Key) (v : Value) :
    (Entries.set entries k v).lookup k = some v := by
  have hnone : (entries.filter fun e => e.1 != k).lookup k = none := by
    rw [List.lookup_eq_none_iff]
    intro e he
    exact bne_iff_ne.mpr (bne_iff_ne.mp (List.mem_filter.mp he).2).symm
  simp [Entries.set, List.lookup_append, hnone]

theorem lookup_filter_of_ne {α : Type} (entries : List (Key × α)) (h : k ≠ j) :
    (entries.filter fun e => e.1 != j).lookup k = entries.lookup k := by
  induction entries with
  | nil => rfl
  | cons e entries ih =>
    obtain ⟨i, v⟩ := e
    by_cases hi : i = j
    · have hki : (k == i) = false := by simpa [hi] using h
      simp [hi, ih, List.lookup_cons, hi ▸ hki]
    · simp [hi, ih, List.lookup_cons]

theorem lookup_set_of_ne (entries : Entries) (v : Value) (h : k ≠ j) :
    (Entries.set entries j v).lookup k = entries.lookup k := by
  have hj : (k == j) = false := beq_eq_false_iff_ne.mpr h
  simp [Entries.set, List.lookup_append, lookup_filter_of_ne entries h, List.lookup_cons, hj]

end Entries

/-! ## Merging -/

section Merge

variable {lower upper : Entries} {k : Key} {old v : Value}

@[simp] theorem Value.merge_table (o o' : Origin) (lower upper : Entries) :
    (Value.table o lower).merge (.table o' upper) = .table o' (mergeEntries lower upper) := rfl

@[simp] theorem mergeEntries_nil (lower : Entries) : mergeEntries lower [] = lower := rfl

theorem mergeEntries_cons (lower : Entries) (k : Key) (v : Value) (upper : Entries) :
    mergeEntries lower ((k, v) :: upper)
      = mergeEntries (Entries.set lower k ((lower.lookup k).elim v (·.merge v))) upper := by
  rw [mergeEntries]
  cases lower.lookup k <;> rfl

theorem Value.isPlain_merge (h : old.IsPlain) (v : Value) : old.merge v = v := by
  cases old with
  | table o entries => exact absurd rfl (h o entries)
  | _ => cases v <;> rfl

theorem Value.merge_of_isPlain (old : Value) (h : v.IsPlain) : old.merge v = v := by
  rcases old.table_or_isPlain with ⟨o, lower, rfl⟩ | hplain
  · cases v with
    | table o' upper => exact absurd rfl (h o' upper)
    | _ => rfl
  · exact isPlain_merge hplain v

/-- Merging keeps keys distinct if it does so for the values. -/
theorem distinct_mergeEntries (hlower : Entries.Distinct lower)
    (hupper : ∀ e ∈ upper, e.2.Distinct ∧ ∀ old : Value, old.Distinct → (old.merge e.2).Distinct) :
    Entries.Distinct (mergeEntries lower upper) := by
  induction upper generalizing lower with
  | nil => exact hlower
  | cons e upper ih =>
    obtain ⟨k, v⟩ := e
    obtain ⟨⟨hv, hmerge⟩, hupper⟩ := List.forall_mem_cons.mp hupper
    rw [mergeEntries_cons]
    refine ih (hlower.set ?_) hupper
    cases hold : lower.lookup k with
    | none => exact hv
    | some old => exact hmerge old (hlower.lookup hold)

theorem Value.Distinct.merge (hold : old.Distinct) (hv : v.Distinct) : (old.merge v).Distinct := by
  induction hv generalizing old with
  | @table o entries keys values ih =>
    rcases old.table_or_isPlain with ⟨o', lower, rfl⟩ | hplain
    · rw [Value.merge_table, Value.distinct_table_iff]
      exact distinct_mergeEntries (Value.distinct_table_iff.mp hold)
        fun e he => ⟨values e he, fun old => ih e he⟩
    · rw [Value.isPlain_merge hplain]
      exact .table keys values
  | plain h =>
    rw [Value.merge_of_isPlain old h]
    exact .plain h

theorem Entries.Distinct.merge (hlower : Entries.Distinct lower) (hupper : Entries.Distinct upper) :
    Entries.Distinct (mergeEntries lower upper) :=
  distinct_mergeEntries hlower fun e he =>
    ⟨hupper.values e he, fun _ hold => hold.merge (hupper.values e he)⟩

/-- What a key stands for in merged settings. -/
theorem lookup_mergeEntries (lower : Entries) (keys : (upper.map Prod.fst).Nodup) (k : Key) :
    (mergeEntries lower upper).lookup k
      = Option.merge Value.merge (lower.lookup k) (upper.lookup k) := by
  induction upper generalizing lower with
  | nil => simp
  | cons e upper ih =>
    obtain ⟨j, v⟩ := e
    obtain ⟨hj, keys⟩ := List.nodup_cons.mp keys
    rw [mergeEntries_cons, ih _ keys]
    by_cases hk : k = j
    · subst hk
      have hnone : upper.lookup k = none := by
        rw [List.lookup_eq_none_iff]
        intro e he
        refine bne_iff_ne.mpr ?_
        rintro rfl
        exact hj (List.mem_map.mpr ⟨e, he, rfl⟩)
      rw [Entries.lookup_set_self, hnone]
      cases lower.lookup k <;> simp
    · have hb : (k == j) = false := beq_eq_false_iff_ne.mpr hk
      rw [Entries.lookup_set_of_ne lower _ hk, List.lookup_cons, hb]

theorem lookup_foldl_mergeEntries {layers : List Entries} (entries : Entries)
    (h : ∀ layer ∈ layers, Entries.Distinct layer) (k : Key) :
    (layers.foldl mergeEntries entries).lookup k
      = (layers.map (·.lookup k)).foldl (Option.merge Value.merge) (entries.lookup k) := by
  induction layers generalizing entries with
  | nil => rfl
  | cons layer layers ih =>
    obtain ⟨hlayer, hlayers⟩ := List.forall_mem_cons.mp h
    rw [List.foldl_cons, ih _ hlayers, lookup_mergeEntries _ hlayer.keys, List.map_cons,
      List.foldl_cons]

end Merge

/-! ## Files -/

theorem entriesOfToml_eq_map (o : Origin) (entries : List (Toml.Key × Toml)) :
    entriesOfToml o entries = entries.map fun e => (e.1, Value.ofToml o e.2) := by
  induction entries with
  | nil => rfl
  | cons e entries ih =>
    obtain ⟨k, v⟩ := e
    rw [entriesOfToml, ih, List.map_cons]

theorem distinct_entriesOfToml {o : Origin} {entries : List (Toml.Key × Toml)}
    (keys : (entries.map Prod.fst).Nodup) (values : ∀ e ∈ entries, (Value.ofToml o e.2).Distinct) :
    Entries.Distinct (entriesOfToml o entries) := by
  rw [entriesOfToml_eq_map]
  refine ⟨?_, List.forall_mem_map.mpr values⟩
  rw [List.map_map]
  exact keys

theorem Value.distinct_ofToml (o : Origin) {v : Toml} (h : v.Distinct) :
    (Value.ofToml o v).Distinct := by
  induction h with
  | table keys _ ih =>
    rw [Value.ofToml, Value.distinct_table_iff]
    exact distinct_entriesOfToml keys ih
  | @plain v h =>
    cases v with
    | moment text =>
      rw [Value.ofToml, Value.distinct_table_iff]
      exact Entries.distinct_singleton _ (.plain (Value.isPlain_scalar _ _))
    | array items => exact .plain (Value.isPlain_array _ _)
    | table entries => exact absurd rfl (h entries)
    | _ => exact .plain (Value.isPlain_scalar _ _)

theorem distinct_entriesOfText {o : Origin} {bytes : Text.Bytes} {entries : Entries}
    (h : entriesOfText o bytes = some entries) : Entries.Distinct entries := by
  obtain ⟨text, -, htext⟩ := Option.bind_eq_some_iff.mp h
  obtain ⟨document, hdocument, rfl⟩ := Option.map_eq_some_iff.mp htext
  have hdistinct := Toml.distinctEntries_read hdocument
  exact distinct_entriesOfToml hdistinct.keys
    fun e he => Value.distinct_ofToml o (hdistinct.values e he)

theorem fileEntries_of_read {h : Host} {path : Path} {bytes : Text.Bytes} {label : List Char}
    {entries : Entries} (hread : h.read path = .ok bytes)
    (hlabel : Path.label h.workingDirectory path = label)
    (htext : entriesOfText (.file label) bytes = some entries) :
    fileEntries h path = .ok entries := by
  simp only [fileEntries, hread, hlabel, htext]

theorem distinct_fileEntries {h : Host} {path : Path} {entries : Entries}
    (hentries : fileEntries h path = .ok entries) : Entries.Distinct entries := by
  rw [fileEntries] at hentries
  split at hentries
  · cases hentries
    exact Entries.distinct_nil
  · split at hentries
    · next htext =>
      cases hentries
      exact distinct_entriesOfText htext
    · cases hentries

theorem distinct_optionalEntries {h : Host} {path : Option Path} {entries : Entries}
    (hentries : optionalEntries h path = .ok entries) : Entries.Distinct entries := by
  cases path with
  | none =>
    cases hentries
    exact Entries.distinct_nil
  | some path => exact distinct_fileEntries hentries

/-! ## The environment -/

section Environment

variable {v : Value} {entries : Entries}

theorem distinct_readVariable_succ {fuel : Nat} {text rest : List Char}
    (hpairs : ∀ entries text out rest, Entries.Distinct entries →
      readVariablePairs fuel entries text = some (out, rest) → Entries.Distinct out)
    (h : readVariable (fuel + 1) text = some (v, rest)) : v.Distinct := by
  rw [readVariable] at h
  obtain ⟨result, hresult, hv⟩ := Option.map_eq_some_iff.mp h
  cases hv
  split at hresult
  · cases hresult
    exact .plain (Value.isPlain_scalar _ _)
  · cases hresult
    exact .plain (Value.isPlain_scalar _ _)
  · obtain ⟨pairs, hread, rfl⟩ := Option.map_eq_some_iff.mp hresult
    exact Value.distinct_table_iff.mpr (hpairs _ _ _ _ Entries.distinct_nil hread)
  · obtain ⟨items, -, rfl⟩ := Option.map_eq_some_iff.mp hresult
    exact .plain (Value.isPlain_array _ _)
  · obtain ⟨string, -, rfl⟩ := Option.map_eq_some_iff.mp hresult
    exact .plain (Value.isPlain_scalar _ _)
  · split at hresult
    · cases hresult
      exact .plain (Value.isPlain_scalar _ _)
    · cases hresult
  · cases hresult
    exact .plain (Value.isPlain_scalar _ _)

theorem distinct_readVariablePairs_succ {fuel : Nat} {text rest : List Char} {out : Entries}
    (hvalue : ∀ text v rest, readVariable fuel text = some (v, rest) → v.Distinct)
    (hpairs : ∀ entries text out rest, Entries.Distinct entries →
      readVariablePairs fuel entries text = some (out, rest) → Entries.Distinct out)
    (hentries : Entries.Distinct entries)
    (h : readVariablePairs (fuel + 1) entries text = some (out, rest)) : Entries.Distinct out := by
  unfold readVariablePairs at h
  split at h
  · cases h
  · cases h
    exact hentries
  · next hfuel _ =>
    cases hfuel
    split at h
    · cases h
    · split at h
      · split at h
        · next hv => exact hpairs _ _ _ _ (hentries.set (hvalue _ _ _ hv)) h
        · next hv =>
          cases h
          exact hentries.set (hvalue _ _ _ hv)
        · cases h
      · cases h

/-- The readers of values and pairs call each other with less fuel. -/
theorem distinct_readVariable (fuel : Nat) :
    (∀ text v rest, readVariable fuel text = some (v, rest) → v.Distinct)
      ∧ ∀ entries text out rest, Entries.Distinct entries →
        readVariablePairs fuel entries text = some (out, rest) → Entries.Distinct out := by
  induction fuel with
  | zero =>
    refine ⟨fun text v rest h => ?_, fun entries text out rest _ h => ?_⟩
    · cases h
    · cases h
  | succ fuel ih =>
    obtain ⟨hvalue, hpairs⟩ := ih
    exact ⟨fun _ _ _ => distinct_readVariable_succ hpairs,
      fun _ _ _ _ => distinct_readVariablePairs_succ hvalue hpairs⟩

theorem distinct_valueOfText (text : List Char) : (valueOfText text).Distinct := by
  rw [valueOfText]
  split
  · next v hv => exact (distinct_readVariable _).1 _ _ _ hv
  · exact .plain (Value.isPlain_scalar _ _)

theorem distinct_nest (hv : v.Distinct) (path : List Key) : (nest v path).Distinct := by
  induction path with
  | nil => exact hv
  | cons k path ih =>
    rw [nest, Value.distinct_table_iff]
    exact Entries.distinct_singleton k ih

/-- Puts the settings of one variable on top of others. -/
def addVariable (entries : Entries) (x : List Char × List Char) : Entries :=
  match pathOfName? x.1 with
  | some (k :: ks) => mergeEntries entries [(k, nest (valueOfText x.2) ks)]
  | _ => entries

theorem environmentEntries_eq (env : Environment) :
    environmentEntries env = env.foldl addVariable [] := rfl

theorem lookup_addVariable (entries : Entries) (x : List Char × List Char) (k : Key) :
    (addVariable entries x).lookup k = match pathOfName? x.1 with
      | some (j :: ks) => Option.merge Value.merge (entries.lookup k)
        (if k = j then some (nest (valueOfText x.2) ks) else none)
      | _ => entries.lookup k := by
  rw [addVariable]
  split
  · next j ks _ =>
    have keys : ([(j, nest (valueOfText x.2) ks)].map Prod.fst).Nodup := List.nodup_singleton j
    rw [lookup_mergeEntries entries keys]
    by_cases hk : k = j
    · simp [hk]
    · have hb : (k == j) = false := beq_eq_false_iff_ne.mpr hk
      simp [hk, List.lookup_cons, hb]
  · rfl

/-- A variable whose path begins with another key does not matter to a key. -/
theorem lookup_foldl_filter {k : Key} {p : List Char × List Char → Bool}
    (hp : ∀ x, p x = false → ∀ ks, pathOfName? x.1 ≠ some (k :: ks)) (env : Environment)
    {entries entries' : Entries} (h : entries.lookup k = entries'.lookup k) :
    ((env.filter p).foldl addVariable entries).lookup k
      = (env.foldl addVariable entries').lookup k := by
  induction env generalizing entries entries' with
  | nil => exact h
  | cons x env ih =>
    cases hx : p x with
    | true =>
      rw [List.filter_cons_of_pos hx, List.foldl_cons, List.foldl_cons]
      refine ih ?_
      rw [lookup_addVariable, lookup_addVariable, h]
    | false =>
      rw [List.filter_cons_of_neg (by simp [hx]), List.foldl_cons]
      refine ih ?_
      rw [h, lookup_addVariable]
      split
      · next j ks hpath =>
        have hk : k ≠ j := fun heq => hp x hx ks (heq ▸ hpath)
        rw [if_neg hk, Option.merge_none_right]
      · rfl

theorem lookup_environmentEntries_filter {k : Key} {p : List Char × List Char → Bool}
    (hp : ∀ x, p x = false → ∀ ks, pathOfName? x.1 ≠ some (k :: ks)) (env : Environment) :
    (environmentEntries (env.filter p)).lookup k = (environmentEntries env).lookup k :=
  lookup_foldl_filter hp env rfl

theorem distinct_addVariable (h : Entries.Distinct entries) (x : List Char × List Char) :
    Entries.Distinct (addVariable entries x) := by
  rw [addVariable]
  split
  · next k ks _ =>
    exact h.merge (Entries.distinct_singleton k (distinct_nest (distinct_valueOfText x.2) ks))
  · exact h

theorem distinct_environmentEntries (env : Environment) :
    Entries.Distinct (environmentEntries env) := by
  rw [environmentEntries_eq]
  exact List.foldlRecOn env addVariable Entries.distinct_nil fun _ h x _ => distinct_addVariable h x

end Environment

/-! ## Layers -/

/-- If two computations in a row succeed, then the first of them does. -/
theorem of_bind_eq_ok {ε α β : Type} {x : Except ε α} {f : α → Except ε β} {b : β}
    (h : x >>= f = .ok b) : ∃ a, x = .ok a ∧ f a = .ok b := by
  cases x with
  | error e => cases h
  | ok a => exact ⟨a, rfl, h⟩

section Layers

variable {h : Host} {named : Option Path} {ls : List Entries}

theorem distinct_builtInEntries : Entries.Distinct builtInEntries := by
  have hscalar := fun s => Value.Distinct.plain (Value.isPlain_scalar .builtIn s)
  refine Entries.distinct_singleton sectionKey (.table (by decide) ?_)
  simp [hscalar]

/-- There is a layer for each place that settings come from. -/
theorem layers_eq_ok_iff : layers h named = .ok ls
    ↔ ∃ user project explicit, optionalEntries h (userFile? h) = .ok user
      ∧ fileEntries h projectFile = .ok project ∧ optionalEntries h named = .ok explicit
      ∧ ls = [builtInEntries, user, project, explicit, environmentEntries h.environment] := by
  constructor
  · intro hls
    obtain ⟨user, huser, hls⟩ := of_bind_eq_ok hls
    obtain ⟨project, hproject, hls⟩ := of_bind_eq_ok hls
    obtain ⟨explicit, hexplicit, hls⟩ := of_bind_eq_ok hls
    cases hls
    exact ⟨user, project, explicit, huser, hproject, hexplicit, rfl⟩
  · rintro ⟨user, project, explicit, huser, hproject, hexplicit, rfl⟩
    rw [layers, huser, hproject, hexplicit]
    rfl

theorem distinct_of_layers (hls : layers h named = .ok ls) :
    ∀ layer ∈ ls, Entries.Distinct layer := by
  obtain ⟨user, project, explicit, huser, hproject, hexplicit, rfl⟩ := layers_eq_ok_iff.mp hls
  simp only [List.forall_mem_cons]
  exact ⟨distinct_builtInEntries, distinct_optionalEntries huser, distinct_fileEntries hproject,
    distinct_optionalEntries hexplicit, distinct_environmentEntries _, List.forall_mem_nil _⟩

end Layers

end SpanIndex.Settings
