import SheetCut.Files.Tree
import Mathlib.Tactic

/-!
# How file trees grow

Creating directories and writing files only adds to a tree, and where a path leads to stays as it
is. A file that has been written is read back from where its path leads.
-/

namespace SheetCut

/-- A computation goes on with the result and in the world that it has come to. -/
theorem bind_apply {σ T U : Type} (x : StateM σ T) (f : T → StateM σ U) (w : σ) :
    (x >>= f) w = f (x w).1 (x w).2 := rfl

theorem pure_apply {σ T : Type} (x : T) (w : σ) : (pure x : StateM σ T) w = (x, w) := rfl

section Except

variable {ε δ T U : Type} {x : Except ε T} {f : ε → δ}

theorem mapError_eq_ok_iff {a : T} : x.mapError f = .ok a ↔ x = .ok a := by
  cases x <;> simp [Except.mapError]

theorem mapError_eq_error_iff {d : δ} : x.mapError f = .error d ↔ ∃ e, x = .error e ∧ f e = d := by
  cases x <;> simp [Except.mapError]

theorem map_eq_ok_iff {g : T → U} {b : U} : x.map g = .ok b ↔ ∃ a, x = .ok a ∧ g a = b := by
  cases x <;> simp [Except.map]

theorem bind_eq_ok_iff {g : T → Except ε U} {b : U} :
    x >>= g = .ok b ↔ ∃ a, x = .ok a ∧ g a = .ok b := by
  cases x <;> simp [bind, Except.bind]

end Except

/-- The bytes of a text are read as that text. -/
theorem fromUTF8?_toUTF8 (text : String) : String.fromUTF8? text.toUTF8 = some text :=
  dif_pos text.isValidUTF8

namespace FileTree

variable {t t' t'' : FileTree} {path : String} {paths : List String} {k k' : PathKey}
  {bytes : ByteArray}

structure Keeps (t t' : FileTree) : Prop where
  workingDirectory_eq : t'.workingDirectory = t.workingDirectory
  isDirectory : ∀ k, t.isDirectory k = true → t'.isDirectory k = true

theorem Keeps.trans (h : t.Keeps t') (h' : t'.Keeps t'') : t.Keeps t'' :=
  ⟨h'.workingDirectory_eq.trans h.workingDirectory_eq,
    fun k hk => h'.isDirectory k (h.isDirectory k hk)⟩

theorem keeps_put : t.Keeps (t.put k bytes) := ⟨rfl, fun _ => id⟩

theorem keeps_putDirectory : t.Keeps (t.putDirectory k) :=
  ⟨rfl, fun _ hk => Bool.or_eq_true_iff.2 (.inr hk)⟩

def IsShort (k : PathKey) : Prop :=
  (String.ofList (k.getLast?.getD [])).utf8ByteSize ≤ maxNameSize

theorem entry_of_isShort (hk : IsShort k) : t.entry k =
    if t.isDirectory k then .ok .directory
    else match t.content? k with
      | some bytes => .ok (.file bytes)
      | none => .ok .nothing := if_neg (Nat.not_lt.2 hk)

theorem isShort_of_entry {e : Entry} (h : t.entry k = .ok e) : IsShort k := by
  by_contra hk
  rw [entry, if_pos (Nat.not_le.1 hk)] at h
  cases h

theorem entry_eq_directory_iff :
    t.entry k = .ok .directory ↔ IsShort k ∧ t.isDirectory k = true := by
  constructor
  · intro h
    have hk := isShort_of_entry h
    rw [entry_of_isShort hk] at h
    refine ⟨hk, ?_⟩
    by_contra hdirectory
    rw [if_neg hdirectory] at h
    split at h <;> cases h
  · rintro ⟨hk, hdirectory⟩
    rw [entry_of_isShort hk, if_pos hdirectory]

theorem isDirectory_of_entry_ne {e : Entry} (h : t.entry k = .ok e) (he : e ≠ .directory) :
    t.isDirectory k = false := by
  rw [Bool.eq_false_iff]
  intro hdirectory
  rw [entry_eq_directory_iff.2 ⟨isShort_of_entry h, hdirectory⟩] at h
  exact he (Except.ok.inj h).symm

theorem entry_eq_nothing_iff : t.entry k = .ok .nothing ↔
    IsShort k ∧ t.isDirectory k = false ∧ t.content? k = none := by
  constructor
  · intro h
    have hk := isShort_of_entry h
    rw [entry_of_isShort hk] at h
    cases hdirectory : t.isDirectory k <;> cases hcontent : t.content? k <;>
      simp [hdirectory, hcontent] at h
    exact ⟨hk, rfl, rfl⟩
  · rintro ⟨hk, hdirectory, hcontent⟩
    rw [entry_of_isShort hk, hdirectory, hcontent]
    rfl

theorem enter_of_keeps (h : t.Keeps t') {c : List Char} (hc : t.enter k c = .ok k') :
    t'.enter k c = .ok k' := by
  rw [enter] at hc ⊢
  split_ifs at hc ⊢ with hdot hdots
  · exact hc
  · exact hc
  · obtain ⟨e, he, hk'⟩ := bind_eq_ok_iff.1 hc
    cases e with
    | directory =>
      obtain ⟨hshort, hdirectory⟩ := entry_eq_directory_iff.1 he
      rw [entry_eq_directory_iff.2 ⟨hshort, h.isDirectory _ hdirectory⟩]
      exact hk'
    | file bytes => cases hk'
    | nothing => cases hk'

theorem foldlM_enter_of_keeps (h : t.Keeps t') {cs : List (List Char)}
    (hcs : cs.foldlM t.enter k = .ok k') : cs.foldlM t'.enter k = .ok k' := by
  induction cs generalizing k with
  | nil => exact hcs
  | cons c cs ih =>
    rw [List.foldlM_cons] at hcs ⊢
    obtain ⟨k₁, hc, hcs⟩ := bind_eq_ok_iff.1 hcs
    rw [enter_of_keeps h hc]
    exact ih hcs

/-- A path that leads somewhere goes on leading there. -/
theorem follow_of_keeps (h : t.Keeps t') {goal : Goal} (hgoal : t.follow path = .ok goal) :
    t'.follow path = .ok goal := by
  rw [follow] at hgoal ⊢
  rw [h.workingDirectory_eq]
  generalize (if Path.isAbsolute path then [] else t.workingDirectory) = start at hgoal ⊢
  split_ifs at hgoal ⊢
  split at hgoal
  · exact hgoal
  · obtain ⟨k, hstart, hk⟩ := map_eq_ok_iff.1 hgoal
    exact map_eq_ok_iff.2 ⟨k, foldlM_enter_of_keeps h hstart, hk⟩

/-- The path ends with a name in a directory that is there. -/
def Leads (t : FileTree) (path : String) (k : PathKey) : Prop :=
  ∃ slash, t.follow path = .ok (.name k slash)

theorem Leads.of_keeps (hk : t.Leads path k) (h : t.Keeps t') : t'.Leads path k :=
  hk.imp fun _ => follow_of_keeps h

/-- The directories of a tree and those of a later one: none has gone, and the new ones are where
nothing was and one of the paths leads. -/
structure Grows (t : FileTree) (paths : List String) (t' : FileTree) : Prop extends t.Keeps t' where
  isNew : ∀ k, t'.isDirectory k = true → t.isDirectory k = true ∨
    t.content? k = none ∧ ∃ path ∈ paths, t'.Leads path k

/-- The tree grows, but not in files. -/
structure AddsDirectories (t : FileTree) (paths : List String) (t' : FileTree) : Prop
    extends t.Grows paths t' where
  content?_eq : t'.content? = t.content?

namespace AddsDirectories

theorem refl : t.AddsDirectories paths t := ⟨⟨⟨rfl, fun _ => id⟩, fun _ => .inl⟩, rfl⟩

theorem trans (h : t.AddsDirectories paths t') (h' : t'.AddsDirectories paths t'') :
    t.AddsDirectories paths t'' := by
  refine ⟨⟨h.toKeeps.trans h'.toKeeps, fun k hk => ?_⟩, h'.content?_eq.trans h.content?_eq⟩
  rcases h'.isNew k hk with hold | ⟨hcontent, path, hpath, hleads⟩
  · refine (h.isNew k hold).imp_right fun ⟨hcontent, path, hpath, hleads⟩ => ?_
    exact ⟨hcontent, path, hpath, hleads.of_keeps h'.toKeeps⟩
  · rw [h.content?_eq] at hcontent
    exact .inr ⟨hcontent, path, hpath, hleads⟩

theorem cons (h : t.AddsDirectories paths t') : t.AddsDirectories (path :: paths) t' := by
  refine ⟨⟨h.toKeeps, fun k hk => ?_⟩, h.content?_eq⟩
  refine (h.isNew k hk).imp_right fun ⟨hcontent, path, hpath, hleads⟩ => ?_
  exact ⟨hcontent, path, List.mem_cons_of_mem _ hpath, hleads⟩

end AddsDirectories

theorem createDirectory_eq_ok (h : t.createDirectory path = .ok t') :
    ∃ k, t.Leads path k ∧ t.entry k = .ok .nothing ∧ t' = t.putDirectory k := by
  obtain ⟨goal, hgoal, h⟩ := bind_eq_ok_iff.1 h
  cases goal with
  | directory k => cases h
  | name k slash =>
    obtain ⟨e, he, h⟩ := bind_eq_ok_iff.1 h
    cases e with
    | nothing =>
      cases h
      exact ⟨k, ⟨slash, hgoal⟩, he, rfl⟩
    | directory => cases h
    | file bytes => cases h

theorem addsDirectories_of_createDirectory (h : t.createDirectory path = .ok t')
    (hpath : path ∈ paths) : t.AddsDirectories paths t' := by
  obtain ⟨k, hleads, hentry, rfl⟩ := createDirectory_eq_ok h
  refine ⟨⟨keeps_putDirectory, fun k' hk' => ?_⟩, rfl⟩
  rcases Bool.or_eq_true_iff.1 hk' with heq | hold
  · obtain rfl := beq_iff_eq.1 heq
    have hcontent := (entry_eq_nothing_iff.1 hentry).2.2
    exact .inr ⟨hcontent, path, hpath, hleads.of_keeps keeps_putDirectory⟩
  · exact .inl hold

theorem addsDirectories_ensureDirectory (hpath : path ∈ paths) :
    t.AddsDirectories paths (ensureDirectory (m := StateM FileTree) path t).2 := by
  cases h : t.createDirectory path with
  | ok t' =>
    have hrun : (ensureDirectory (m := StateM FileTree) path t).2 = t' := by
      simp [ensureDirectory, bind_apply, FileAccess.createDirectory, update, h, pure_apply]
    rw [hrun]
    exact addsDirectories_of_createDirectory h hpath
  | error e =>
    have hrun : (ensureDirectory (m := StateM FileTree) path t).2 = t := by
      simp only [ensureDirectory, bind_apply, FileAccess.createDirectory, update, h,
        FileAccess.isDirectory]
      split <;> rfl
    rw [hrun]
    exact .refl

/-- Whether it succeeds or not, creating directories adds some of them and changes nothing else. -/
theorem addsDirectories_createRow (paths : List String) (t : FileTree) :
    t.AddsDirectories paths (createRow (m := StateM FileTree) paths t).2 := by
  induction paths generalizing t with
  | nil => exact .refl
  | cons path above ih =>
    have hfirst : t.AddsDirectories (path :: above)
        (ensureDirectory (m := StateM FileTree) path t).2 :=
      addsDirectories_ensureDirectory List.mem_cons_self
    rw [createRow, bind_apply]
    rcases hrun : ensureDirectory (m := StateM FileTree) path t with ⟨result, t₁⟩
    rw [hrun] at hfirst
    dsimp only
    split
    · -- the directory above is missing
      have habove := hfirst.trans (ih t₁).cons
      rw [bind_apply]
      rcases hrun₁ : createRow (m := StateM FileTree) above t₁ with ⟨result₁, t₂⟩
      rw [hrun₁] at habove
      cases result₁ with
      | ok u => exact habove.trans (addsDirectories_ensureDirectory List.mem_cons_self)
      | error e => exact habove
    · exact hfirst

theorem update_eq_ok_iff {change : FileTree → Except FileError FileTree} :
    update change t = (.ok (), t') ↔ change t = .ok t' := by
  rw [update]
  cases change t with
  | ok t₁ =>
    constructor
    · rintro ⟨⟩
      rfl
    · rintro ⟨⟩
      rfl
  | error e => exact iff_of_false nofun nofun

/-- What is written goes to where the path leads, which is no directory. -/
theorem write_eq_ok_iff : t.write path bytes = .ok t' ↔ ∃ k, t.follow path = .ok (.name k false) ∧
    IsShort k ∧ t.isDirectory k = false ∧ t' = t.put k bytes := by
  constructor
  · intro h
    obtain ⟨goal, hgoal, h⟩ := bind_eq_ok_iff.1 h
    cases goal with
    | directory k => cases h
    | name k slash =>
      cases slash with
      | true => cases h
      | false =>
        obtain ⟨e, he, h⟩ := bind_eq_ok_iff.1 h
        refine ⟨k, hgoal, isShort_of_entry he, isDirectory_of_entry_ne he ?_, ?_⟩
        · rintro rfl
          cases h
        · cases e with
          | directory => cases h
          | file old => exact (Except.ok.inj h).symm
          | nothing => exact (Except.ok.inj h).symm
  · rintro ⟨k, hgoal, hshort, hdirectory, rfl⟩
    rw [write, hgoal]
    change (t.entry k >>= _) = _
    rw [entry_of_isShort hshort, hdirectory]
    cases t.content? k <;> rfl

/-- What has been written is read back. -/
theorem read_of_write (h : t.write path bytes = .ok t') : t'.read path = .ok bytes := by
  obtain ⟨k, hgoal, hshort, hdirectory, rfl⟩ := write_eq_ok_iff.1 h
  have hentry : (t.put k bytes).entry k = .ok (.file bytes) := by
    rw [entry_of_isShort hshort]
    simp [put, hdirectory]
  rw [read, follow_of_keeps keeps_put hgoal]
  change ((t.put k bytes).entry k >>= _) = _
  rw [hentry]
  rfl

theorem readText_of_write {text : String} (h : t.write path text.toUTF8 = .ok t') :
    readText (m := StateM FileTree) path t' = (.ok text, t') := by
  simp only [readText, bind_apply, FileAccess.read, read_of_write h, fromUTF8?_toUTF8, pure_apply]

def above (path : String) : List String := Path.lineage ((Path.parent? path).getD "")

/-- The tree grows on the way to the file that the path leads to, and in no other file. -/
structure AddsFile (t : FileTree) (path : String) (k : PathKey) (bytes : ByteArray)
    (t' : FileTree) : Prop extends t.Grows (above path) t' where
  leads : t'.follow path = .ok (.name k false)
  content?_self : t'.content? k = some bytes
  content?_of_ne : ∀ k' ≠ k, t'.content? k' = t.content? k'

/-- The directories on the way to the file are there or can be created, and then it can be
written. -/
def Takes (t : FileTree) (path : String) : Prop := ∀ bytes, (place path bytes t).1 = .ok ()

theorem place_eq_ok_iff : place path bytes t = (.ok (), t') ↔
    ∃ t₁, createRow (m := StateM FileTree) (above path) t = (.ok (), t₁) ∧
      t₁.write path bytes = .ok t' := by
  rw [place, bind_apply, createDirectories]
  rw [above]
  rcases createRow (m := StateM FileTree) (Path.lineage ((Path.parent? path).getD "")) t with
    ⟨result, t₁⟩
  cases result with
  | ok u =>
    dsimp only
    rw [update_eq_ok_iff]
    constructor
    · exact fun h => ⟨t₁, rfl, h⟩
    · rintro ⟨t₂, ⟨⟩, h⟩
      exact h
  | error e =>
    refine iff_of_false nofun ?_
    rintro ⟨t₂, ⟨⟩, -⟩

/-- Whether a file can be written does not depend on what is to be in it. -/
theorem takes_of_place (bytes : ByteArray) (h : (place path bytes t).1 = .ok ()) :
    t.Takes path := by
  intro bytes'
  obtain ⟨t₁, hrow, hwrite⟩ := place_eq_ok_iff.1 (Prod.ext h rfl)
  obtain ⟨k, hgoal, hshort, hdirectory, -⟩ := write_eq_ok_iff.1 hwrite
  have hwrite' : t₁.write path bytes' = .ok (t₁.put k bytes') :=
    write_eq_ok_iff.2 ⟨k, hgoal, hshort, hdirectory, rfl⟩
  rw [place_eq_ok_iff.2 ⟨t₁, hrow, hwrite'⟩]

theorem addsFile_of_place (h : place path bytes t = (.ok (), t')) :
    ∃ k, t.AddsFile path k bytes t' := by
  obtain ⟨t₁, hrow, hwrite⟩ := place_eq_ok_iff.1 h
  have hadds := addsDirectories_createRow (above path) t
  rw [hrow] at hadds
  obtain ⟨k, hgoal, -, -, rfl⟩ := write_eq_ok_iff.1 hwrite
  have hkeeps : t₁.Keeps (t₁.put k bytes) := keeps_put
  refine ⟨k, ⟨⟨hadds.toKeeps.trans hkeeps, fun k' hk' => ?_⟩, follow_of_keeps hkeeps hgoal, ?_,
    fun k' hk' => ?_⟩⟩
  · refine (hadds.isNew k' hk').imp_right fun ⟨hcontent, dir, hdir, hleads⟩ => ?_
    exact ⟨hcontent, dir, hdir, hleads.of_keeps hkeeps⟩
  · exact if_pos rfl
  · rw [← hadds.content?_eq]
    exact if_neg hk'

end FileTree

end SheetCut
