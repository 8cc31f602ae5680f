import SpanIndex.Toml.Scan
import SpanIndex.Toml.Value

/-!
# Tables under construction

A table of a TOML document can be written in several places, and which of them may add to it depends on how it
came to be: by a header of its own, only as part of the name of another table, or by a key with dots. So the
tables of a document are kept as `Item`s with a `Style` until all of it has been read.
-/

namespace SpanIndex.Toml

/-- How a table came to be. -/
inductive Style where
  /-- Named on the way to another table. -/
  | implicit
  /-- Named by a key with dots. -/
  | dotted
  /-- Opened by a header. -/
  | explicit
deriving DecidableEq, Inhabited

/-- What a key stands for. -/
inductive Item where
  | value (v : Toml)
  | table (style : Style) (entries : List (Key × Item))
  /-- Tables with one name, the last one first. -/
  | tables (elements : List (List (Key × Item)))

abbrev Entries := List (Key × Item)

namespace Entries

/-- Replaces what a key stands for. -/
def replace (key : Key) (item : Item) (entries : Entries) : Entries :=
  entries.map fun e => if e.1 == key then (key, item) else e

/-- Adds a key that is not there yet. -/
def add (key : Key) (item : Item) (entries : Entries) : Entries := entries ++ [(key, item)]

/-- Adds a value under a key. Of a key with dots, every part but the last is the name of a table. Such a table
may not have a header; and the one that the value goes to has to be named by keys with dots only. -/
def insert (key : Key) (v : Toml) : List Key → Entries → Option Entries
  | [], entries => match entries.lookup key with
    | some _ => none
    | none => some (entries.add key (.value v))
  | k :: ks, entries => match entries.lookup k with
    | none => (insert key v ks []).map fun es => entries.add k (.table .dotted es)
    | some (.table .dotted es) =>
      (insert key v ks es).map fun es => entries.replace k (.table .dotted es)
    | some (.table .implicit es) =>
      if ks.isEmpty then none
      else (insert key v ks es).map fun es => entries.replace k (.table .implicit es)
    | some (.tables (es :: earlier)) =>
      if ks.isEmpty then none
      else (insert key v ks es).map fun es => entries.replace k (.tables (es :: earlier))
    | some _ => none

/-- Changes the table with a given path of names, the last one of several. -/
def modifyAt (f : Entries → Option Entries) : List Key → Entries → Option Entries
  | [], entries => f entries
  | k :: ks, entries => match entries.lookup k with
    | some (.table style es) =>
      (modifyAt f ks es).map fun es => entries.replace k (.table style es)
    | some (.tables (es :: earlier)) =>
      (modifyAt f ks es).map fun es => entries.replace k (.tables (es :: earlier))
    | _ => none

/-- Changes the table around the one with a given path, where the tables on the way are made if they are not
there. -/
def modifyParent (f : Key → Entries → Option Entries) : List Key → Entries → Option Entries
  | [], _ => none
  | [k], entries => f k entries
  | k :: ks, entries => match entries.lookup k with
    | none => (modifyParent f ks []).map fun es => entries.add k (.table .implicit es)
    | some (.table style es) =>
      (modifyParent f ks es).map fun es => entries.replace k (.table style es)
    | some (.tables (es :: earlier)) =>
      (modifyParent f ks es).map fun es => entries.replace k (.tables (es :: earlier))
    | some _ => none

/-- Opens a table by a header. It may have been named before on the way to another one. -/
def openTable (path : List Key) (entries : Entries) : Option Entries :=
  modifyParent (fun k entries => match entries.lookup k with
    | none => some (entries.add k (.table .explicit []))
    | some (.table .implicit es) => some (entries.replace k (.table .explicit es))
    | some _ => none) path entries

/-- Opens one more of several tables with one name. -/
def openElement (path : List Key) (entries : Entries) : Option Entries :=
  modifyParent (fun k entries => match entries.lookup k with
    | none => some (entries.add k (.tables [[]]))
    | some (.tables elements) => some (entries.replace k (.tables ([] :: elements)))
    | some _ => none) path entries

end Entries

mutual

/-- The value of an item. -/
def Item.toToml : Item → Toml
  | .value v => v
  | .table _ entries => .table (entriesToml entries)
  | .tables elements => .array (elementsToml elements).reverse

/-- The values of the entries of a table. -/
def entriesToml : List (Key × Item) → List (Key × Toml)
  | [] => []
  | (k, item) :: rest => (k, item.toToml) :: entriesToml rest

/-- The values of tables with one name. -/
def elementsToml : List (List (Key × Item)) → List Toml
  | [] => []
  | entries :: rest => .table (entriesToml entries) :: elementsToml rest

end

/-- Makes a table of pairs of keys and values. -/
def tableOfPairs (pairs : List (List Key × Key × Toml)) : Option Toml :=
  (pairs.foldlM (fun entries (path, key, v) => Entries.insert key v path entries) []).map
    fun entries => .table (entriesToml entries)

end SpanIndex.Toml
