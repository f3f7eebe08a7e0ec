import SheetCut.Proofs.Files.Growth
import SheetCut.Proofs.Settings.Text

/-!
# Saving settings

Settings that do not pass their check, or whose file name has neither of the two suffixes, leave the
tree as it is. All others are written, with the directories on the way to their file and no other
change, and loaded again from there.
-/

namespace SheetCut

def Path.HasFormat (path : String) : Prop := suffix? path = some "json" ∨ suffix? path = some "toml"

namespace SettingsFormat

variable {path : String}

theorem exists_ofPath?_iff : (∃ format, ofPath? path = .ok format) ↔ Path.HasFormat path := by
  rw [Path.HasFormat, ofPath?]
  split
  · next h => simp [h]
  · next h => simp [h]
  · next hjson htoml => exact iff_of_false nofun fun h => h.elim hjson htoml

end SettingsFormat

namespace Settings

open FileTree

variable {s : Settings Float} {path : String} {t t' : FileTree} {format : SettingsFormat}

theorem save_of_fault (h : s.fault? ≠ none) :
    ∃ e, save (m := StateM FileTree) s path t = (.error e, t) := by
  cases hfault : s.fault? with
  | none => exact absurd hfault h
  | some fault =>
    refine ⟨.invalid fault, ?_⟩
    rw [save, checked, hfault]
    rfl

theorem save_of_not_hasFormat (h : ¬Path.HasFormat path) :
    ∃ e, save (m := StateM FileTree) s path t = (.error e, t) := by
  by_cases hvalid : s.fault? = none
  · cases hformat : SettingsFormat.ofPath? path with
    | ok format => exact absurd (SettingsFormat.exists_ofPath?_iff.1 ⟨format, hformat⟩) h
    | error e =>
      refine ⟨e, ?_⟩
      rw [save, checked_eq_ok_iff.2 ⟨rfl, hvalid⟩, hformat]
      rfl
  · exact save_of_fault hvalid

/-- The directories that saving creates are those above the path. -/
theorem above_eq (path : String) : above path = (directory? path).elim [] Path.lineage := by
  have hempty : Path.lineage "" = [] := rfl
  rw [above, directory?]
  cases Path.parent? path with
  | none => exact hempty
  | some directory =>
    by_cases h : directory = ""
    · rw [h]
      exact hempty
    · rw [Option.filter_some, if_pos (decide_eq_true h)]
      rfl

/-- What can be saved is put into its file. -/
theorem save_eq_place (hvalid : s.fault? = none)
    (hformat : SettingsFormat.ofPath? path = .ok format) :
    save (m := StateM FileTree) s path t =
      ((place path (s.text format).toUTF8 t).1.mapError .file,
        (place path (s.text format).toUTF8 t).2) := by
  rw [save, checked_eq_ok_iff.2 ⟨rfl, hvalid⟩, hformat, place, createDirectories, ← above, above_eq]
  cases directory? path with
  | none => rfl
  | some directory =>
    simp only [Option.elim_some, bind_apply, createDirectories]
    cases (createRow (m := StateM FileTree) (Path.lineage directory) t).1 with
    | ok u => rfl
    | error e => rfl

/-- What is in the file of settings is loaded if it passes the check. -/
theorem load_of_readText (hvalid : s.fault? = none)
    (hformat : SettingsFormat.ofPath? path = .ok format)
    (hread : readText (m := StateM FileTree) path t = (.ok (s.text format), t))
    (htext : ofText? (s.text format) format = .ok s) :
    load (m := StateM FileTree) path t = (.ok s, t) := by
  rw [load, hformat]
  simp only [bind_apply, hread, htext, pure_apply]
  exact congrArg (·, t) (checked_eq_ok_iff.2 ⟨rfl, hvalid⟩)

/-- Saving to a file that the tree takes succeeds if and only if the settings pass their check and
the file name has the suffix of a format. Otherwise the tree stays as it is. Settings that are saved
are in their file as their text, and no other file has changed; the only new directories are those
on the way to the file. They are loaded again from there, if the format reads their floats back. -/
theorem save_all_or_nothing (htakes : t.Takes path) :
    ((save (m := StateM FileTree) s path t).1 = .ok () ↔ s.fault? = none ∧ Path.HasFormat path) ∧
    ((save (m := StateM FileTree) s path t).1 ≠ .ok () →
      (save (m := StateM FileTree) s path t).2 = t) ∧
    ∀ t', save (m := StateM FileTree) s path t = (.ok (), t') →
      ∃ format, SettingsFormat.ofPath? path = .ok format ∧
        (∃ k, t.AddsFile path k (s.text format).toUTF8 t') ∧
        ((∀ x ∈ s.floats, x.isFinite = true → format.ReadsBack x) →
          load (m := StateM FileTree) path t' = (.ok s, t')) := by
  by_cases h : s.fault? = none ∧ Path.HasFormat path
  · obtain ⟨hvalid, hpath⟩ := h
    obtain ⟨format, hformat⟩ := SettingsFormat.exists_ofPath?_iff.2 hpath
    have hsave := save_eq_place (t := t) hvalid hformat
    rw [htakes] at hsave
    refine ⟨iff_of_true (congrArg Prod.fst hsave) ⟨hvalid, hpath⟩,
      fun hfail => absurd (congrArg Prod.fst hsave) hfail, fun t' ht' => ?_⟩
    rw [hsave] at ht'
    have hplace : place path (s.text format).toUTF8 t = (.ok (), t') :=
      Prod.ext (htakes _) (Prod.mk.inj ht').2
    obtain ⟨t₁, -, hwrite⟩ := place_eq_ok_iff.1 hplace
    refine ⟨format, hformat, addsFile_of_place hplace, fun hread => ?_⟩
    have htext : ofText? (s.text format) format = .ok s :=
      ofText?_text hvalid fun x hx => hread x hx (isFinite_of_mem_floats hvalid x hx)
    exact load_of_readText hvalid hformat (readText_of_write hwrite) htext
  · have hfail : ∃ e, save (m := StateM FileTree) s path t = (.error e, t) := by
      rcases not_and_or.1 h with hvalid | hpath
      · exact save_of_fault hvalid
      · exact save_of_not_hasFormat hpath
    obtain ⟨e, hfail⟩ := hfail
    rw [hfail]
    exact ⟨iff_of_false nofun h, fun _ => rfl, nofun⟩

/-- Settings for steps of exactly 1, with quotes in the level. -/
def oneStep : Settings Float := ⟨⟨1, 1, 1⟩, ⟨"play \"it\"", true⟩⟩

/-- They are saved in a new directory and loaded again. -/
theorem save_all_or_nothing_oneStep : ∃ t',
    save (m := StateM FileTree) oneStep "new/one.toml" (.bare "/home") = (.ok (), t') ∧
      load (m := StateM FileTree) "new/one.toml" t' = (.ok oneStep, t') := by
  have htakes : (FileTree.bare "/home").Takes "new/one.toml" := takes_of_place .empty rfl
  have htext : Toml.floatLayout.text 1 = "1.0" := by decide +kernel
  have hvalue : Scalar.ofDecimal 10 (-1) = (1 : Float) := by decide +kernel
  have hone : Toml.ReadsBack 1 := by
    rw [Toml.ReadsBack, htext, ← hvalue]
    rfl
  obtain ⟨hiff, -, hsaved⟩ := save_all_or_nothing (s := oneStep) htakes
  have hsave := hiff.2 ⟨rfl, .inr rfl⟩
  obtain ⟨format, hformat, -, hload⟩ := hsaved _ (Prod.ext hsave rfl)
  cases hformat
  exact ⟨_, Prod.ext hsave rfl, hload (by simp [floats, oneStep, SettingsFormat.ReadsBack, hone])⟩

end Settings

end SheetCut
