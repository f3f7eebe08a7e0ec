import SheetCut.CommandLine.Run
import SheetCut.Proofs.Binary64.Order
import SheetCut.Proofs.Files.Growth
import SheetCut.Proofs.Playback.Rows

/-!
# The range of the step size

Settings that pass their check have a range of finite positive step sizes with the configured one in
it. Every request is brought into that range, so that a sampler accepts it; and only settings that
pass the check are ever loaded.
-/

namespace SheetCut

open Binary64

namespace StepRange

section

variable {α : Type} [Scalar α]

structure IsSound (r : StepRange α) : Prop where
  isFinite_min : Scalar.isFinite r.min = true
  zero_lt_min : 0 < r.min
  isFinite_max : Scalar.isFinite r.max = true
  min_le_max : r.min ≤ r.max
  min_le_step : r.min ≤ r.step
  step_le_max : r.step ≤ r.max

structure Holds (r : StepRange α) (y : α) : Prop where
  isFinite : Scalar.isFinite y = true
  min_le : r.min ≤ y
  le_max : y ≤ r.max

theorem fault?_eq_none_iff {r : StepRange α} : r.fault? = none ↔ r.IsSound := by
  rw [fault?]
  split_ifs with hmin hmax hstep
  · exact iff_of_true rfl ⟨hmin.1, hmin.2, hmax.1, hmax.2, hstep.1, hstep.2⟩
  · exact iff_of_false nofun fun h => hstep ⟨h.min_le_step, h.step_le_max⟩
  · exact iff_of_false nofun fun h => hmax ⟨h.isFinite_max, h.min_le_max⟩
  · exact iff_of_false nofun fun h => hmin ⟨h.isFinite_min, h.zero_lt_min⟩

end

namespace IsSound

variable {r : StepRange Float} {x y : Float}

theorem holds_of_le (h : r.IsSound) (hmin : r.min ≤ y) (hmax : y ≤ r.max) : r.Holds y :=
  ⟨isFinite_of_le_of_le h.isFinite_min hmin hmax h.isFinite_max, hmin, hmax⟩

theorem holds_step (h : r.IsSound) : r.Holds r.step := h.holds_of_le h.min_le_step h.step_le_max

theorem holds_min (h : r.IsSound) : r.Holds r.min :=
  h.holds_of_le (le_refl_float (isNumber_of_isFinite h.isFinite_min)) h.min_le_max

theorem holds_max (h : r.IsSound) : r.Holds r.max :=
  h.holds_of_le h.min_le_max (le_refl_float (isNumber_of_isFinite h.isFinite_max))

theorem clamp?_of_not_isFinite (hx : ¬Scalar.isFinite x = true) : r.clamp? x = some r.step :=
  if_neg hx

theorem clamp?_of_isFinite (h : r.IsSound) (hx : Scalar.isFinite x = true) :
    r.clamp? x = some (if r.max < (if x < r.min then r.min else x) then r.max
      else if x < r.min then r.min else x) := by
  rw [clamp?, if_pos hx, clampFinite?, if_pos h.min_le_max]

theorem not_max_lt (h : r.IsSound) (hy : r.Holds y) : ¬r.max < y :=
  (not_lt_iff_le (isNumber_of_isFinite h.isFinite_max) (isNumber_of_isFinite hy.isFinite)).2
    hy.le_max

theorem not_lt_min (h : r.IsSound) (hy : r.Holds y) : ¬y < r.min :=
  (not_lt_iff_le (isNumber_of_isFinite hy.isFinite) (isNumber_of_isFinite h.isFinite_min)).2
    hy.min_le

theorem clamp?_of_lt_min (h : r.IsSound) (hx : Scalar.isFinite x = true) (hlt : x < r.min) :
    r.clamp? x = some r.min := by
  rw [h.clamp?_of_isFinite hx, if_pos hlt, if_neg (h.not_max_lt h.holds_min)]

theorem clamp?_of_max_lt (h : r.IsSound) (hx : Scalar.isFinite x = true) (hlt : r.max < x) :
    r.clamp? x = some r.max := by
  have hmin : ¬x < r.min := by
    rw [not_lt_iff_le (isNumber_of_isFinite hx) (isNumber_of_isFinite h.isFinite_min)]
    exact le_trans_float h.min_le_max (le_of_lt_float hlt)
  rw [h.clamp?_of_isFinite hx, if_neg hmin, if_pos hlt]

theorem clamp?_of_holds (h : r.IsSound) (hx : r.Holds x) : r.clamp? x = some x := by
  rw [h.clamp?_of_isFinite hx.isFinite, if_neg (h.not_lt_min hx), if_neg (h.not_max_lt hx)]

/-- A finite request is below the range, in it or above it. -/
theorem lt_min_or_holds_or_max_lt (h : r.IsSound) (hx : Scalar.isFinite x = true) :
    x < r.min ∨ r.Holds x ∨ r.max < x := by
  have hxn := isNumber_of_isFinite hx
  by_cases hmin : x < r.min
  · exact .inl hmin
  · by_cases hmax : r.max < x
    · exact .inr (.inr hmax)
    · rw [not_lt_iff_le hxn (isNumber_of_isFinite h.isFinite_min)] at hmin
      rw [not_lt_iff_le (isNumber_of_isFinite h.isFinite_max) hxn] at hmax
      exact .inr (.inl ⟨hx, hmin, hmax⟩)

/-- Every request has a step size, and it lies in the range. -/
theorem exists_clamp? (h : r.IsSound) (x : Float) : ∃ y, r.clamp? x = some y ∧ r.Holds y := by
  by_cases hx : Scalar.isFinite x = true
  · rcases h.lt_min_or_holds_or_max_lt hx with hlt | hmem | hlt
    · exact ⟨r.min, h.clamp?_of_lt_min hx hlt, h.holds_min⟩
    · exact ⟨x, h.clamp?_of_holds hmem, hmem⟩
    · exact ⟨r.max, h.clamp?_of_max_lt hx hlt, h.holds_max⟩
  · exact ⟨r.step, clamp?_of_not_isFinite hx, h.holds_step⟩

theorem holds_of_clamp? (h : r.IsSound) (hy : r.clamp? x = some y) : r.Holds y := by
  obtain ⟨z, hz, hmem⟩ := h.exists_clamp? x
  rw [hy] at hz
  cases hz
  exact hmem

/-- Larger requests have larger step sizes. -/
theorem clamp?_mono (h : r.IsSound) {x' y' : Float} (hx : Scalar.isFinite x = true)
    (hx' : Scalar.isFinite x' = true) (hle : x ≤ x') (hy : r.clamp? x = some y)
    (hy' : r.clamp? x' = some y') : y ≤ y' := by
  have hmem' := h.holds_of_clamp? hy'
  rcases h.lt_min_or_holds_or_max_lt hx with hlt | hmem | hlt
  · rw [h.clamp?_of_lt_min hx hlt] at hy
    cases hy
    exact hmem'.min_le
  · rw [h.clamp?_of_holds hmem] at hy
    cases hy
    rcases h.lt_min_or_holds_or_max_lt hx' with hlt' | hin' | hlt'
    · rw [h.clamp?_of_lt_min hx' hlt'] at hy'
      cases hy'
      exact le_trans_float hle (le_of_lt_float hlt')
    · rw [h.clamp?_of_holds hin'] at hy'
      cases hy'
      exact hle
    · rw [h.clamp?_of_max_lt hx' hlt'] at hy'
      cases hy'
      exact hmem.le_max
  · rw [h.clamp?_of_max_lt hx hlt] at hy
    rw [h.clamp?_of_max_lt hx' (lt_of_lt_of_le_float hlt hle)] at hy'
    cases hy
    cases hy'
    exact le_refl_float (isNumber_of_isFinite h.isFinite_max)

end IsSound

end StepRange

namespace Sampler

/-- A step size of the range is one that a sampler takes. -/
theorem exists_ofStep? {r : StepRange Float} (h : r.IsSound) {y : Float} (hy : r.Holds y) :
    ∃ sampler, ofStep? y = .ok sampler ∧ sampler.step = y := by
  have hpos : 0 < y := lt_of_lt_of_le_float h.zero_lt_min hy.min_le
  exact ⟨⟨y, hy.isFinite, hpos⟩, dif_pos ⟨hy.isFinite, hpos⟩, rfl⟩

variable {α : Type} [Scalar α]

/-- A sampler never finds fault with its step size. -/
theorem stepsFor_ne_invalidStepSize (s : Sampler α) (segment : Segment α) (step : α) :
    s.stepsFor segment ≠ .error (.invalidStepSize step) := by
  rw [stepsFor]
  split_ifs
  · nofun
  · split
    · split_ifs <;> nofun
    · nofun

theorem sampleProgram_ne_invalidStepSize (s : Sampler α) {text : String} {keep : Bool}
    {p : Program α} (hp : Program.ofText? text keep = .ok p) (step : α) :
    s.sampleProgram p ≠ .error (.invalidStepSize step) := by
  rw [s.sampleProgram_eq fun part hpart c hc => Program.isPhased_of_ofCommands? hp hpart hc]
  cases hcheck : s.check p.segments with
  | error e =>
    intro h
    cases h
    obtain ⟨-, t, -, -, -, ht⟩ := s.check_eq_error_iff.1 hcheck
    exact s.stepsFor_ne_invalidStepSize t step ht
  | ok u => nofun

end Sampler

namespace Settings

theorem fault?_eq_none_iff {α : Type} [Scalar α] {s : Settings α} :
    s.fault? = none ↔ s.steps.IsSound ∧ s.logging.hasLevel = true := by
  rw [← StepRange.fault?_eq_none_iff, fault?]
  cases s.steps.fault? with
  | some fault => simp
  | none => simp

theorem checked_eq_ok_iff {s t : Settings Float} :
    t.checked = .ok s ↔ t = s ∧ s.fault? = none := by
  rw [checked]
  cases h : t.fault? with
  | some fault =>
    refine iff_of_false nofun ?_
    rintro ⟨rfl, hs⟩
    rw [h] at hs
    cases hs
  | none =>
    constructor
    · rintro ⟨⟩
      exact ⟨rfl, h⟩
    · rintro ⟨rfl, -⟩
      rfl

theorem fault?_default : (default : Settings Float).fault? = none := rfl

end Settings

section Access

variable {σ : Type} [FileAccess (StateM σ)] {s : Settings Float} {w : σ}

namespace Settings

/-- Only settings that pass their check are loaded. -/
theorem fault?_of_load {path : String} (h : (load (m := StateM σ) path w).1 = .ok s) :
    s.fault? = none := by
  rw [load] at h
  cases hformat : SettingsFormat.ofPath? path with
  | error e =>
    rw [hformat] at h
    cases h
  | ok format =>
    simp only [hformat, bind_apply] at h
    cases hread : (readText (m := StateM σ) path w).1 with
    | error e =>
      rw [hread] at h
      cases h
    | ok text =>
      rw [hread] at h
      change (ofText? text format).bind checked = .ok s at h
      cases htext : ofText? text format with
      | error e =>
        rw [htext] at h
        cases h
      | ok t =>
        rw [htext] at h
        exact (checked_eq_ok_iff.1 h).2

theorem fault?_of_loadOrDefault {path : Option String}
    (h : (loadOrDefault (m := StateM σ) path w).1 = .ok s) : s.fault? = none := by
  cases path with
  | none =>
    cases h
    exact fault?_default
  | some path =>
    simp only [loadOrDefault, bind_apply] at h
    split at h
    · exact fault?_of_load h
    · cases h
      exact fault?_default

end Settings

namespace CommandLine

theorem loadSettings_eq_ok {i : Invocation} {settingsPath : Option String}
    (h : (loadSettings (m := StateM σ) i settingsPath w).1 = .ok s) : s.fault? = none := by
  cases hpath : i.settingsPath with
  | some path =>
    simp only [loadSettings, hpath, bind_apply, pure_apply] at h
    exact Settings.fault?_of_load (mapError_eq_ok_iff.1 h)
  | none =>
    simp only [loadSettings, hpath, bind_apply, pure_apply] at h
    exact Settings.fault?_of_loadOrDefault (mapError_eq_ok_iff.1 h)

theorem loadSettings_eq_error {i : Invocation} {settingsPath : Option String} {f : Failure}
    (h : (loadSettings (m := StateM σ) i settingsPath w).1 = .error f) :
    ∃ path e, f = .settings path e := by
  cases hpath : i.settingsPath with
  | some path =>
    simp only [loadSettings, hpath, bind_apply, pure_apply] at h
    obtain ⟨e, -, rfl⟩ := mapError_eq_error_iff.1 h
    exact ⟨some path, e, rfl⟩
  | none =>
    simp only [loadSettings, hpath, bind_apply, pure_apply] at h
    obtain ⟨e, -, rfl⟩ := mapError_eq_error_iff.1 h
    exact ⟨none, e, rfl⟩

/-- A playback with an accepted step size does not fail on it. -/
theorem sampleFile_ne_invalidStepSize {y : Float} {sampler : Sampler Float}
    (hy : Sampler.ofStep? y = .ok sampler) (file : String) (step : Float) :
    (sampleFile (m := StateM σ) file y w).1 ≠ .error (.sampling (.invalidStepSize step)) := by
  intro h
  simp only [sampleFile, hy, Program.ofFile?, bind_apply] at h
  cases hread : (readText (m := StateM σ) file w).1 with
  | error e =>
    rw [hread] at h
    cases h
  | ok text =>
    simp only [hread, pure_apply] at h
    cases hp : (Program.ofText? (α := Float) text false).mapError ReadError.parse with
    | error e =>
      rw [hp] at h
      obtain ⟨e', -, rfl⟩ := mapError_eq_error_iff.1 hp
      cases h
    | ok p =>
      simp only [hp, pure_apply] at h
      obtain ⟨e, he, hstep⟩ := mapError_eq_error_iff.1 h
      cases hstep
      exact sampler.sampleProgram_ne_invalidStepSize (mapError_eq_ok_iff.1 hp) step he

/-- With settings in order there is a step to sample with, and the run does not break off. -/
theorem runTask_sample (h : s.fault? = none) (file : String) (request : Option Float)
    (json : Bool) :
    ∃ y sampler, s.steps.clamp? (request.getD s.steps.step) = some y ∧
      Sampler.ofStep? y = .ok sampler ∧
      (runTask (m := StateM σ) s (.sample file request json) w).1 =
        match (sampleFile (m := StateM σ) file y w).1 with
        | .error e => .error (.sample file e)
        | .ok points =>
          .ok (if json then PathPoint.jsonReport points else PathPoint.report points) := by
  have hsound := (Settings.fault?_eq_none_iff.1 h).1
  obtain ⟨y, hclamp, hy⟩ := hsound.exists_clamp? (request.getD s.steps.step)
  obtain ⟨sampler, hsampler, -⟩ := Sampler.exists_ofStep? hsound hy
  refine ⟨y, sampler, hclamp, hsampler, ?_⟩
  simp only [runTask, hclamp, bind_apply]
  cases (sampleFile (m := StateM σ) file y w).1 <;> rfl

/-- With settings in order no task fails on a step size. -/
theorem runTask_ne_invalidStepSize (h : s.fault? = none) (task : Task) (file : String)
    (step : Float) : (runTask (m := StateM σ) s task w).1 ≠
      .error (.sample file (.sampling (.invalidStepSize step))) := by
  intro hrun
  cases task with
  | info file' json =>
    simp only [runTask, bind_apply] at hrun
    cases hfile : (Program.ofFile? (m := StateM σ) file' false w).1 <;> rw [hfile] at hrun <;>
      cases hrun
  | sample file' request json =>
    obtain ⟨y, sampler, -, hsampler, heq⟩ := runTask_sample (w := w) h file' request json
    rw [heq] at hrun
    cases hsample : (sampleFile (m := StateM σ) file' y w).1 with
    | error e =>
      rw [hsample] at hrun
      cases hrun
      exact sampleFile_ne_invalidStepSize hsampler _ step hsample
    | ok points =>
      rw [hsample] at hrun
      cases hrun

/-- Nor does an invocation, as its settings are in order when they are loaded. -/
theorem runInvocation_ne_invalidStepSize (i : Invocation) (settingsPath : Option String)
    (file : String) (step : Float) :
    (runInvocation (m := StateM σ) i settingsPath w).1 ≠
      .error (.sample file (.sampling (.invalidStepSize step))) := by
  intro hrun
  simp only [runInvocation, bind_apply] at hrun
  cases hload : (loadSettings (m := StateM σ) i settingsPath w).1 with
  | error f =>
    obtain ⟨path, e, rfl⟩ := loadSettings_eq_error hload
    rw [hload] at hrun
    cases hrun
  | ok s =>
    rw [hload] at hrun
    cases hlevel : checkLevel i s.logging.level with
    | error f =>
      simp only [hlevel, pure_apply] at hrun
      cases hrun
      rw [checkLevel] at hlevel
      split at hlevel
      · cases hlevel
      · obtain ⟨e, -, hf⟩ := mapError_eq_error_iff.1 hlevel
        cases e <;> cases hf
    | ok u =>
      simp only [hlevel] at hrun
      exact runTask_ne_invalidStepSize (loadSettings_eq_ok hload) i.task file step hrun

end CommandLine

/-- Every loaded set of settings is in order. With settings in order every request, a number or not,
has a step size: a finite one in the range, and one that samplers take. It is the request itself if
that lies in the range, it stays as it is when it is requested again, and a larger request does not
get a smaller one. So no run fails on its step size. -/
theorem Settings.step_accepted :
    (∀ path w, (load (m := StateM σ) path w).1 = .ok s → s.fault? = none) ∧
    (∀ path w, (loadOrDefault (m := StateM σ) path w).1 = .ok s → s.fault? = none) ∧
    (s.fault? = none → ∀ x, ∃ y, s.steps.clamp? x = some y ∧ s.steps.Holds y ∧
      (∃ sampler, Sampler.ofStep? y = .ok sampler ∧ sampler.step = y) ∧
      (¬Scalar.isFinite x = true → y = s.steps.step) ∧ (s.steps.Holds x → y = x) ∧
      s.steps.clamp? y = some y ∧
      ∀ x' y', Scalar.isFinite x = true → Scalar.isFinite x' = true → x ≤ x' →
        s.steps.clamp? x' = some y' → y ≤ y') ∧
    (s.fault? = none → ∀ task w file step, (CommandLine.runTask (m := StateM σ) s task w).1 ≠
      .error (.sample file (.sampling (.invalidStepSize step)))) ∧
    ∀ i settingsPath w file step, (CommandLine.runInvocation (m := StateM σ) i settingsPath w).1 ≠
      .error (.sample file (.sampling (.invalidStepSize step))) := by
  refine ⟨fun path w => fault?_of_load, fun path w => fault?_of_loadOrDefault, fun h x => ?_,
    fun h task w file step => CommandLine.runTask_ne_invalidStepSize h task file step,
    fun i settingsPath w file step =>
      CommandLine.runInvocation_ne_invalidStepSize i settingsPath file step⟩
  have hsound := (fault?_eq_none_iff.1 h).1
  obtain ⟨y, hclamp, hy⟩ := hsound.exists_clamp? x
  refine ⟨y, hclamp, hy, Sampler.exists_ofStep? hsound hy, fun hx => ?_, fun hx => ?_,
    hsound.clamp?_of_holds hy,
    fun x' y' hx hx' hle hclamp' => hsound.clamp?_mono hx hx' hle hclamp hclamp'⟩
  · rw [StepRange.IsSound.clamp?_of_not_isFinite hx] at hclamp
    exact (Option.some.inj hclamp).symm
  · rw [hsound.clamp?_of_holds hx] at hclamp
    exact (Option.some.inj hclamp).symm

end Access

/-- A tree with one file of settings, for steps of up to 2. -/
def narrowTree : FileTree :=
  .ofFiles "/" [("narrow.toml", "[segmentation]\nmax_step_size_mm = 2.0\n".toUTF8)]

/-- A request of 9 is brought down to 2, and one that is no number gets the default of 1. -/
theorem Settings.step_accepted_narrow :
    ∃ s, (load (m := StateM FileTree) "narrow.toml" narrowTree).1 = .ok s ∧ s.fault? = none ∧
      (∃ y, s.steps.clamp? 9 = some y ∧ s.steps.Holds y ∧ (y == 2) = true) ∧
      ∃ y, s.steps.clamp? (0 / 0) = some y ∧ s.steps.Holds y ∧ (y == 1) = true := by
  have hrun : (load (m := StateM FileTree) "narrow.toml" narrowTree).1.toOption.map (fun s =>
      ((s.steps.clamp? 9).any (· == 2), (s.steps.clamp? (0 / 0)).any (· == 1))) =
      some (true, true) := by
    decide +kernel
  obtain ⟨s, hload, hrun⟩ := exists_eq_ok_of_toOption_map hrun
  obtain ⟨hnine, hnan⟩ := Prod.mk.inj hrun
  have hvalid : s.fault? = none := step_accepted.1 _ _ hload
  refine ⟨s, hload, hvalid, ?_, ?_⟩
  · obtain ⟨y, hy, hrange, -⟩ := (step_accepted (σ := FileTree)).2.2.1 hvalid 9
    rw [hy] at hnine
    exact ⟨y, hy, hrange, hnine⟩
  · obtain ⟨y, hy, hrange, -⟩ := (step_accepted (σ := FileTree)).2.2.1 hvalid (0 / 0)
    rw [hy] at hnan
    exact ⟨y, hy, hrange, hnan⟩

end SheetCut
