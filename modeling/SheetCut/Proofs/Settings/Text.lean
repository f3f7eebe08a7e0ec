import SheetCut.Proofs.Settings.Range
import SheetCut.Proofs.Snapshot.Texts
import SheetCut.Proofs.Toml.Document
import SheetCut.Settings.File

/-!
# Reading settings back

Settings are read back from their text in either format, with any level, if their three floats are.
The floats of settings that pass their check are finite.
-/

namespace SheetCut

namespace Settings

def floats (s : Settings Float) : List Float := [s.steps.step, s.steps.min, s.steps.max]

theorem isFinite_of_mem_floats {s : Settings Float} (h : s.fault? = none) :
    ∀ x ∈ s.floats, x.isFinite = true := by
  have hsound := (fault?_eq_none_iff.1 h).1
  simp only [floats, List.forall_mem_cons]
  exact ⟨hsound.holds_step.isFinite, hsound.isFinite_min, hsound.isFinite_max,
    List.forall_mem_nil _⟩

end Settings

section Records

open SettingsSource

variable {V : Type} [SettingsSource V] {v : V}

theorem StepRange.ofSource?_eq_some {r : StepRange Float} {step min max : V}
    (hv : fields? fieldNames v = some [some step, some min, some max])
    (hstep : float? step = some r.step) (hmin : float? min = some r.min)
    (hmax : float? max = some r.max) : ofSource? v = some r := by
  simp [ofSource?, hv, fieldOr, hstep, hmin, hmax]

theorem Logging.ofSource?_eq_some {l : Logging} {level json : V}
    (hv : fields? fieldNames v = some [some level, some json])
    (hlevel : string? level = some l.level) (hjson : bool? json = some l.json) :
    ofSource? v = some l := by
  simp [ofSource?, hv, fieldOr, hlevel, hjson]

theorem Settings.ofSource?_eq_some {s : Settings Float} {steps logging : V}
    (hv : fields? fieldNames v = some [some steps, some logging])
    (hsteps : StepRange.ofSource? steps = some s.steps)
    (hlogging : Logging.ofSource? logging = some s.logging) : ofSource? v = some s := by
  simp [ofSource?, hv, fieldOr, hsteps, hlogging]

end Records

section Json

open Json Snapshot Numbers RoundTrip

instance : Numbers (StepRange Float) :=
  ⟨fun P r => Satisfy P r.step ∧ Satisfy P r.min ∧ Satisfy P r.max⟩

instance : Numbers Logging := ⟨fun _ _ => True⟩

instance : Numbers (Settings Float) := ⟨fun P s => Satisfy P s.steps ∧ Satisfy P s.logging⟩

instance : RoundTrip (StepRange Float) 1 where
  ofJson?_toJson hP r hr :=
    StepRange.ofSource?_eq_some (fields?_object (by simp) 0) (ofJson?_toJson hP r.step hr.1)
      (ofJson?_toJson hP r.min hr.2.1) (ofJson?_toJson hP r.max hr.2.2)
  fits_toJson r hr n hn :=
    ⟨hn, fits_toJson r.step hr.1 _ (by omega), fits_toJson r.min hr.2.1 _ (by omega),
      fits_toJson r.max hr.2.2 _ (by omega), trivial⟩

instance : RoundTrip Logging 1 where
  ofJson?_toJson _ l _ := Logging.ofSource?_eq_some (fields?_object (by simp) 0) rfl rfl
  fits_toJson l _ n hn := ⟨hn, trivial, trivial, trivial⟩

instance : RoundTrip (Settings Float) 2 where
  ofJson?_toJson hP s hs :=
    Settings.ofSource?_eq_some (fields?_object (by simp) 0) (ofJson?_toJson hP s.steps hs.1)
      (ofJson?_toJson hP s.logging hs.2)
  fits_toJson s hs n hn :=
    ⟨by omega, fits_toJson s.steps hs.1 _ (by omega), fits_toJson s.logging hs.2 _ (by omega),
      trivial⟩

theorem Settings.satisfy_of_floats {P : Float → Prop} {s : Settings Float}
    (h : ∀ x ∈ s.floats, P x) : Satisfy P s := by
  simp only [floats, List.forall_mem_cons] at h
  exact ⟨⟨h.1, h.2.1, h.2.2.1⟩, trivial⟩

theorem Settings.ofText?_json {s : Settings Float} (hvalid : s.fault? = none)
    (hread : ∀ x ∈ s.floats, Json.ReadsBack x) : ofText? (s.text .json) .json = .ok s := by
  have hwritten : Satisfy IsWritten s :=
    satisfy_of_floats fun x hx => ⟨isFinite_of_mem_floats hvalid x hx, hread x hx⟩
  have hback : IsReadBack (Settings Float) := isReadBack_of_height (by decide)
  have htext : (Json.ofText? (s.text .json)).bind ofSource? = some s := ((hback s).2 hwritten).2
  rw [ofText?, htext]
  rfl

end Json

section Toml

open Toml

namespace Settings

variable (s : Settings Float)

def stepRows : List Row :=
  [⟨"step_size_mm", floatLayout.text s.steps.step, float s.steps.step⟩,
    ⟨"min_step_size_mm", floatLayout.text s.steps.min, float s.steps.min⟩,
    ⟨"max_step_size_mm", floatLayout.text s.steps.max, float s.steps.max⟩]

def loggingRows : List Row :=
  [⟨"level", quoted s.logging.level, string s.logging.level⟩,
    ⟨"json", boolText s.logging.json, bool s.logging.json⟩]

theorem tomlText_eq : s.tomlText =
    sectionText "segmentation" (s.stepRows.map fun r => (r.key, r.text)) ++ "\n" ++
      sectionText "logging" (s.loggingRows.map fun r => (r.key, r.text)) := rfl

def toToml : Toml :=
  .table .header
    [("segmentation", .table .header (s.stepRows.map fun r => (r.key, r.value))),
      ("logging", .table .header (s.loggingRows.map fun r => (r.key, r.value)))]

theorem ofSource?_toToml : ofSource? s.toToml = some s :=
  ofSource?_eq_some (fields?_table (by simp) .header)
    (StepRange.ofSource?_eq_some (fields?_table (by simp [stepRows]) .header) rfl rfl rfl)
    (Logging.ofSource?_eq_some (fields?_table (by simp [loggingRows]) .header) rfl rfl)

theorem isRead_stepRows (hvalid : s.fault? = none) (hread : ∀ x ∈ s.floats, Toml.ReadsBack x) :
    ∀ r ∈ s.stepRows, r.IsRead := by
  have hfloat : ∀ x ∈ s.floats, WritesValue (floatLayout.text x).toList (float x) :=
    fun x hx => writesValue_float (isFinite_of_mem_floats hvalid x hx) (hread x hx)
  simp only [floats, List.forall_mem_cons] at hfloat
  obtain ⟨hstep, hmin, hmax, -⟩ := hfloat
  simp only [stepRows, List.forall_mem_cons, Row.IsRead]
  exact ⟨⟨by decide, hstep⟩, ⟨by decide, hmin⟩, ⟨by decide, hmax⟩,
    List.forall_mem_nil _⟩

theorem isRead_loggingRows : ∀ r ∈ s.loggingRows, r.IsRead := by
  simp only [loggingRows, List.forall_mem_cons, Row.IsRead]
  exact ⟨⟨by decide, writesValue_string _⟩, ⟨by decide, writesValue_bool _⟩,
    List.forall_mem_nil _⟩

variable {s}

/-- The statements of the settings make up their document. -/
theorem ofStatements?_rows :
    ofStatements? ((.header ["segmentation"] :: s.stepRows.map fun r => .pair [r.key] r.value) ++
      (.header ["logging"] :: s.loggingRows.map fun r => .pair [r.key] r.value)) =
      some s.toToml := by
  rfl

theorem readStatements?_tomlText (hvalid : s.fault? = none)
    (hread : ∀ x ∈ s.floats, Toml.ReadsBack x) : readStatements? s.tomlText.toList =
      some ((.header ["segmentation"] :: s.stepRows.map fun r => .pair [r.key] r.value) ++
        (.header ["logging"] :: s.loggingRows.map fun r => .pair [r.key] r.value)) := by
  have hsteps := readStatements?_section (by decide : IsBare "segmentation")
    (isRead_stepRows s hvalid hread)
  have hlogging := readStatements?_section (by decide : IsBare "logging")
    (isRead_loggingRows s) []
  have htext : s.tomlText.toList =
      (sectionText "segmentation" (s.stepRows.map fun r => (r.key, r.text))).toList ++ '\n' ::
        ((sectionText "logging" (s.loggingRows.map fun r => (r.key, r.text))).toList ++ []) := by
    rw [tomlText_eq, String.toList_append, String.toList_append, List.append_assoc, List.append_nil]
    rfl
  have hnil : readStatements? [] = some [] := by rw [readStatements?.eq_def, if_pos rfl]
  rw [htext, hsteps, readStatements?_blank, hlogging, hnil]
  rfl

theorem return_not_mem_tomlText (hvalid : s.fault? = none) : '\r' ∉ s.tomlText.toList := by
  have hfloat : ∀ x ∈ s.floats, '\r' ∉ (floatLayout.text x).toList := fun x hx hmem =>
    absurd ((exists_word_of_isFinite (isFinite_of_mem_floats hvalid x hx)).2 _ hmem) (by decide)
  have hquoted : '\r' ∉ (quoted s.logging.level).toList := by
    rw [quoted, String.toList_ofList]
    exact return_not_mem_write _
  have hbool : '\r' ∉ (boolText s.logging.json).toList := by
    cases s.logging.json <;> decide
  simp only [floats, List.forall_mem_cons] at hfloat
  obtain ⟨hstep, hmin, hmax, -⟩ := hfloat
  rw [tomlText_eq, String.toList_append, String.toList_append, toList_sectionText,
    toList_sectionText]
  simp [stepRows, loggingRows, Row.line, hstep, hmin, hmax, hquoted, hbool]

theorem ofText?_tomlText (hvalid : s.fault? = none) (hread : ∀ x ∈ s.floats, Toml.ReadsBack x) :
    Toml.ofText? s.tomlText = some s.toToml := by
  have hmark : dropMark s.tomlText.toList = s.tomlText.toList := by
    rw [tomlText_eq, String.toList_append, String.toList_append, toList_sectionText]
    rfl
  rw [Toml.ofText?, hmark, joinLineEnds_of_not_mem (return_not_mem_tomlText hvalid),
    readStatements?_tomlText hvalid hread, Option.bind_some]
  exact ofStatements?_rows

theorem ofText?_toml {s : Settings Float} (hvalid : s.fault? = none)
    (hread : ∀ x ∈ s.floats, Toml.ReadsBack x) : ofText? (s.text .toml) .toml = .ok s := by
  have htext : Toml.ofText? (s.text .toml) = some s.toToml := ofText?_tomlText hvalid hread
  rw [ofText?, htext, Option.bind_some, ofSource?_toToml]
  rfl

end Settings

end Toml

/-- The float is read back from its text in the format. -/
def SettingsFormat.ReadsBack : SettingsFormat → Float → Prop
  | json => Json.ReadsBack
  | toml => Toml.ReadsBack

/-- Settings that pass their check are read back from their text, if their floats are. -/
theorem Settings.ofText?_text {s : Settings Float} (hvalid : s.fault? = none)
    {format : SettingsFormat} (hread : ∀ x ∈ s.floats, format.ReadsBack x) :
    ofText? (s.text format) format = .ok s := by
  cases format with
  | json => exact ofText?_json hvalid hread
  | toml => exact ofText?_toml hvalid hread

end SheetCut
