import Mathlib
import SpanIndex.CommandLine.Run
import SpanIndex.Host.Directory
import SpanIndex.Proofs.Settings.Field

/-!
# Arguments before settings

A field of a job comes from the arguments, or else from the highest layer of settings that gives it. That layer has
to give something that can be used, even if an argument goes before it; what the layers below it say of the field
is not looked at.
-/

namespace SpanIndex.CommandLine

open Settings (Entries Field Gives LoadError Omits OutputSettings SameBut Value)

/-! ## Loading a job -/

/-- What the arguments and the settings ask for. -/
def loadJob (h : Host) (a : Arguments) : Except LoadError Job :=
  (Settings.load h a.config).map (Job.resolve a)

/-- A run loads its job and then does it. -/
theorem runWith_eq (h : Host) (a : Arguments) :
    runWith h a = match loadJob h a with
      | .error e => .notConfigured e
      | .ok j => runJob h j := by
  rw [runWith, loadJob]
  cases Settings.load h a.config <;> rfl

/-- What a job has for a field. -/
def ofJob : (f : Field) → Job → f.Choice
  | .format, j => j.format
  | .taxonomy, j => j.options.taxonomy
  | .qualifyMethods, j => j.options.qualifyMethods

/-- What the arguments say of a field. Methods can only be left unqualified. -/
def given? : (f : Field) → Arguments → Option f.Choice
  | .format, a => a.format
  | .taxonomy, a => a.taxonomy
  | .qualifyMethods, a => if a.noQualifyMethods then some false else none

theorem ofJob_resolve (f : Field) (a : Arguments) (s : OutputSettings) :
    ofJob f (Job.resolve a s) = (given? f a).getD (f.ofSettings s) := by
  cases f with
  | format => rfl
  | taxonomy => rfl
  | qualifyMethods =>
    simp only [ofJob, given?, Job.resolve, Field.ofSettings]
    cases a.noQualifyMethods <;> rfl

/-- The highest layer that gives a field has to give something that can be used. If the job is loaded, then the
arguments or else that layer decide the field; and the layers below could say anything else of it. -/
theorem loadJob_of_gives {h : Host} {a : Arguments} {f : Field} {v : Value}
    {below above : List Entries} {layer : Entries}
    (hpresent : Settings.isPresent h a.config = true)
    (hlayers : Settings.layers h a.config = .ok (below ++ layer :: above))
    (hgives : Gives f v layer) (homits : ∀ l ∈ above, Omits f l) :
    ((∀ x, ¬ f.Accepts v x) → ∃ e, loadJob h a = .error e)
      ∧ (∀ x j, f.Accepts v x → loadJob h a = .ok j → ofJob f j = (given? f a).getD x)
      ∧ (v.IsPlain → ∀ (h' : Host) (below' : List Entries),
        Settings.isPresent h' a.config = true →
        Settings.layers h' a.config = .ok (below' ++ layer :: above) →
        List.Forall₂ (SameBut f) below below' → loadJob h' a = loadJob h a) := by
  have haccepts : ∀ s, Settings.load h a.config = .ok s → f.Accepts v (f.ofSettings s) :=
    fun s => Settings.accepts_of_load hpresent hlayers hgives homits
  refine ⟨fun hnone => ?_, fun x j hx hj => ?_, fun hplain h' below' hpresent' hlayers' hsame => ?_⟩
  · cases hload : Settings.load h a.config with
    | error e => exact ⟨e, by rw [loadJob, hload]; rfl⟩
    | ok s => exact absurd (haccepts s hload) (hnone _)
  · cases hload : Settings.load h a.config with
    | error e =>
      rw [loadJob, hload] at hj
      cases hj
    | ok s =>
      rw [loadJob, hload] at hj
      cases hj
      rw [ofJob_resolve, (haccepts s hload).unique hx]
  · have hd := Settings.distinct_of_layers hlayers
    have hd' := Settings.distinct_of_layers hlayers'
    rw [loadJob, loadJob, Settings.load_eq hpresent' hlayers', Settings.load_eq hpresent hlayers,
      Settings.ofEntries_stack_congr hd hd' hgives hplain homits hsame]

/-! ## A masked format -/

/-- A layer that gives the format. -/
def formatLayer (o : Settings.Origin) (s : Settings.Scalar) : Entries :=
  [(Settings.sectionKey, .table o [(Settings.formatKey, .scalar o s)])]

def userPath : Path := bytesOf "/w/home/.config/declmap/config.toml"

def userOrigin : Settings.Origin := .file "home/.config/declmap/config.toml".toList

def projectText : Text.Bytes := bytesOf "[output]\nformat = \"tsv\"\n"

def projectOrigin : Settings.Origin := .file ".declmap/config.toml".toList

def projectLayer : Entries := formatLayer projectOrigin (.string "tsv".toList)

/-- A host where the user and the project give the format, and the environment gives the taxonomy. -/
def maskingHost (userText : Text.Bytes) : Host :=
  .ofDirectory
    ⟨bytesOf "/w",
      [(["home", ".config", "declmap", "config.toml"].map bytesOf, some userText),
        ([".declmap", "config.toml"].map bytesOf, some projectText)]⟩
    [("HOME".toList, "/w/home".toList), ("DECLMAP_OUTPUT__TAXONOMY".toList, "legacy".toList)]

/-- The layers above that of the project. -/
def layersAbove : List Entries :=
  [[], [(Settings.sectionKey,
    .table .environment [(Settings.taxonomyKey, .scalar .environment (.string "legacy".toList))])]]

theorem layers_maskingHost {userText : Text.Bytes} {s : Settings.Scalar}
    (htext : Settings.entriesOfText userOrigin userText = some (formatLayer userOrigin s)) :
    Settings.layers (maskingHost userText) none
      = .ok ([Settings.builtInEntries, formatLayer userOrigin s] ++ projectLayer :: layersAbove) := by
  have hfile : Settings.userFile? (maskingHost userText) = some userPath := rfl
  have hlabel : Path.label (bytesOf "/w") userPath
      = "home/.config/declmap/config.toml".toList := by decide +kernel
  have hlabel' : Path.label (bytesOf "/w") Settings.projectFile
      = ".declmap/config.toml".toList := by decide +kernel
  have htext' : Settings.entriesOfText projectOrigin projectText = some projectLayer := by cbv
  have huser : Settings.fileEntries (maskingHost userText) userPath
      = .ok (formatLayer userOrigin s) := Settings.fileEntries_of_read rfl hlabel htext
  have hproject : Settings.fileEntries (maskingHost userText) Settings.projectFile
      = .ok projectLayer := Settings.fileEntries_of_read rfl hlabel' htext'
  rw [Settings.layers_eq_ok_iff, hfile]
  exact ⟨_, _, [], huser, hproject, rfl, rfl⟩

theorem layers_maskingHost_number :
    Settings.layers (maskingHost (bytesOf "output.format = 1")) none
      = .ok ([Settings.builtInEntries, formatLayer userOrigin (.signed 1)]
        ++ projectLayer :: layersAbove) :=
  layers_maskingHost (by cbv)

theorem layers_maskingHost_name :
    Settings.layers (maskingHost (bytesOf "output.format = \"csv\"")) none
      = .ok ([Settings.builtInEntries, formatLayer userOrigin (.string "csv".toList)]
        ++ projectLayer :: layersAbove) :=
  layers_maskingHost (by cbv)

theorem gives_projectLayer :
    Gives .format (.scalar projectOrigin (.string "tsv".toList)) projectLayer :=
  ⟨_, _, rfl, rfl⟩

theorem omits_layersAbove : ∀ l ∈ layersAbove, Omits .format l := by
  rw [layersAbove, List.forall_mem_cons, List.forall_mem_singleton]
  exact ⟨Or.inl rfl, Or.inr ⟨_, _, rfl, rfl⟩⟩

/-- The format of the user is masked by that of the project, whether it is one or not. -/
theorem loadJob_of_gives_masking :
    Settings.layers (maskingHost (bytesOf "output.format = 1")) none
        = .ok ([Settings.builtInEntries, formatLayer userOrigin (.signed 1)]
          ++ projectLayer :: layersAbove)
      ∧ Gives .format (.scalar projectOrigin (.string "tsv".toList))
        projectLayer
      ∧ (∀ l ∈ layersAbove, Omits .format l)
      ∧ Settings.layers (maskingHost (bytesOf "output.format = \"csv\"")) none
        = .ok ([Settings.builtInEntries, formatLayer userOrigin (.string "csv".toList)]
          ++ projectLayer :: layersAbove)
      ∧ (∀ j, loadJob (maskingHost (bytesOf "output.format = 1")) {} = .ok j → j.format = .tsv)
      ∧ loadJob (maskingHost (bytesOf "output.format = \"csv\"")) {}
        = loadJob (maskingHost (bytesOf "output.format = 1")) {} := by
  obtain ⟨-, hdecides, hmasked⟩ := loadJob_of_gives (a := {}) rfl layers_maskingHost_number
    gives_projectLayer omits_layersAbove
  refine ⟨layers_maskingHost_number, gives_projectLayer, omits_layersAbove, layers_maskingHost_name,
    fun j => hdecides .tsv j ⟨_, rfl⟩, ?_⟩
  refine hmasked (Settings.Value.isPlain_scalar _ _) _ _ rfl layers_maskingHost_name ?_
  refine .cons (SameBut.refl _ _) (.cons (Or.inr ⟨_, _, _, _, rfl, rfl, fun k hk => ?_⟩) .nil)
  have hformat : (k == Settings.formatKey) = false := beq_eq_false_iff_ne.mpr hk
  simp [List.lookup_cons, hformat]

end SpanIndex.CommandLine
