import Mathlib.Data.List.Basic
import Mathlib.Data.List.TakeWhile
import SheetCut.Program.Assembly
import SheetCut.Proofs.Contour.Runs

/-!
# Placements and parts

Every placement of the header is accounted for: it gives a part if its block is marked anywhere in
the program, and is skipped otherwise. One placement has no influence on another, and only a missing
section makes a whole program fail.
-/

namespace SheetCut

/-- A computation whose result can be looked at has a result. -/
theorem exists_eq_ok_of_toOption_map {ε β γ : Type} {r : Except ε β} {f : β → γ} {y : γ}
    (h : r.toOption.map f = some y) : ∃ b, r = .ok b ∧ f b = y := by
  cases r with
  | error e => cases h
  | ok b => exact ⟨b, rfl, Option.some.inj h⟩

variable {α : Type}

namespace Command

def isProgramEnd : Command α → Bool
  | call .programEnd => true
  | _ => false

/-- The placement that the command declares while `block` is in force. -/
def placement? (block : UInt32) : Command α → Option (Placement α)
  | call (.partOrigin x y rotation partCodeBlock contourCount) =>
    some ⟨block, ⟨x, y⟩, rotation, partCodeBlock, contourCount⟩
  | _ => none

/-- The commands before the first program end. -/
def header (cs : List (Command α)) : List (Command α) := cs.takeWhile fun c => !c.isProgramEnd

/-- The placement declared at place `i`, with the number of the last block marker before it. -/
def placementAt? (block : UInt32) (cs : List (Command α)) (i : Nat) : Option (Placement α) :=
  cs[i]?.bind (placement? (blockInForce block (cs.take i)))

theorem placementAt?_zero (block : UInt32) (c : Command α) (cs : List (Command α)) :
    placementAt? block (c :: cs) 0 = c.placement? block := rfl

theorem placementAt?_succ (block : UInt32) (c : Command α) (cs : List (Command α)) (i : Nat) :
    placementAt? block (c :: cs) (i + 1) = placementAt? (c.blockNumber?.getD block) cs i := by
  rw [placementAt?, List.take_succ_cons, blockInForce_cons, List.getElem?_cons_succ]
  rfl

end Command

namespace Program

open Command

theorem placementsFrom_of_isProgramEnd {block : UInt32} {c : Command α} {cs : List (Command α)}
    (h : c.isProgramEnd) : placementsFrom block (c :: cs) = [] := by
  unfold isProgramEnd at h
  split at h
  · rfl
  · cases h

/-- A command of the header declares at most one placement and may mark the next block. -/
theorem placementsFrom_cons {block : UInt32} {c : Command α} {cs : List (Command α)}
    (h : c.isProgramEnd = false) :
    placementsFrom block (c :: cs) =
      (c.placement? block).toList ++ placementsFrom (c.blockNumber?.getD block) cs := by
  cases c with
  | call c =>
    cases c with
    | programEnd => cases h
    | _ => rfl
  | _ => rfl

/-- The placements of a program are those declared at the single places of its header. -/
theorem placementsFrom_eq_filterMap (block : UInt32) (cs : List (Command α)) :
    placementsFrom block cs =
      (List.range (header cs).length).filterMap (placementAt? block (header cs)) := by
  induction cs generalizing block with
  | nil => rfl
  | cons c cs ih =>
    cases hc : c.isProgramEnd with
    | true =>
      rw [placementsFrom_of_isProgramEnd hc, header, List.takeWhile_cons_of_neg (by simp [hc])]
      rfl
    | false =>
      have hh : header (c :: cs) = c :: header cs := List.takeWhile_cons_of_pos (by simp [hc])
      have hs : (fun i => placementAt? block (c :: header cs) (i + 1)) =
          placementAt? (c.blockNumber?.getD block) (header cs) :=
        funext (placementAt?_succ block c (header cs))
      rw [placementsFrom_cons hc, ih, hh, List.length_cons, filterMap_range_succ,
        placementAt?_zero, hs]

def HasDatabase (cs : List (Command α)) : Prop :=
  ∃ material dbName assistGas, .call (.loadDatabase material dbName assistGas) ∈ cs

def HasSetup (cs : List (Command α)) : Prop :=
  ∃ totalParts width height, .call (.init totalParts width height) ∈ cs

theorem hasDatabase_iff {cs : List (Command α)} :
    HasDatabase cs ↔ ∃ c ∈ cs, (materialOf? c).isSome := by
  constructor
  · rintro ⟨_, _, _, hc⟩
    exact ⟨_, hc, rfl⟩
  · rintro ⟨c, hc, h⟩
    unfold materialOf? at h
    split at h
    · exact ⟨_, _, _, hc⟩
    · cases h

theorem hasSetup_iff {cs : List (Command α)} :
    HasSetup cs ↔ ∃ c ∈ cs, (setupOf? c).isSome := by
  constructor
  · rintro ⟨_, _, _, hc⟩
    exact ⟨_, hc, rfl⟩
  · rintro ⟨c, hc, h⟩
    unfold setupOf? at h
    split at h
    · exact ⟨_, _, _, hc⟩
    · cases h

theorem exists_sectionIn? {β : Type} (s : Section) {read? : Command α → Option β}
    {cs : List (Command α)} (h : ∃ c ∈ cs, (read? c).isSome) :
    ∃ b, sectionIn? s read? cs = .ok b := by
  obtain ⟨b, hb⟩ := Option.isSome_iff_exists.1 (List.findSome?_isSome_iff.2 h)
  exact ⟨b, by rw [sectionIn?, hb]⟩

/-- A section that no command mentions is missing. -/
theorem sectionIn?_eq_error {β : Type} (s : Section) {read? : Command α → Option β}
    {cs : List (Command α)} (h : ¬∃ c ∈ cs, (read? c).isSome) :
    sectionIn? s read? cs = .error (.missingSection s) := by
  have hn : cs.findSome? read? = none := by
    rwa [← Option.not_isSome_iff_eq_none, List.findSome?_isSome_iff]
  rw [sectionIn?, hn]

end Program

namespace Placement

/-- The block of the part code is marked somewhere among the commands. -/
def isMarkedIn (cs : List (Command α)) (p : Placement α) : Bool :=
  cs.any fun c => c.blockNumber? == some p.partCodeBlock

theorem isMarkedIn_iff {cs : List (Command α)} {p : Placement α} :
    p.isMarkedIn cs ↔ .blockMarker p.partCodeBlock ∈ cs := by
  rw [isMarkedIn, List.any_eq_true]
  constructor
  · rintro ⟨c, hc, h⟩
    cases c with
    | blockMarker n =>
      have hn : n = p.partCodeBlock := by simpa [Command.blockNumber?] using h
      rwa [← hn]
    | _ => simp [Command.blockNumber?] at h
  · intro h
    exact ⟨_, h, beq_self_eq_true _⟩

def skipped (p : Placement α) : SkippedPart := ⟨p.partId, p.partCodeBlock⟩

/-- The part of the placement: the contours from the first marker of its block on, at the place
that the placement says. -/
def part [Scalar α] (cs : List (Command α)) (p : Placement α) : Part α where
  id := p.partId
  blockNumber := p.partCodeBlock
  originBlockNumber := p.originBlockNumber
  origin := p.origin
  rotation := p.rotation
  contours := (ScanState.start p.partCodeBlock).contours
    (cs.dropWhile fun c => c.blockNumber? != some p.partCodeBlock)

end Placement

variable [Scalar α]

theorem Part.ofPlacement?_of_isMarkedIn {cs : List (Command α)} {p : Placement α}
    (h : p.isMarkedIn cs) : ofPlacement? cs p = .ok (p.part cs) := by
  obtain ⟨c, hc, hn⟩ := List.any_eq_true.1 h
  have hne : cs.dropWhile (fun c => c.blockNumber? != some p.partCodeBlock) ≠ [] := by
    intro hnil
    have := List.dropWhile_eq_nil_iff.1 hnil c hc
    simp_all
  rw [ofPlacement?, Placement.part]
  split
  · contradiction
  · rfl

theorem Part.ofPlacement?_of_not_isMarkedIn {cs : List (Command α)} {p : Placement α}
    (h : p.isMarkedIn cs = false) :
    ofPlacement? cs p = .error (.partCodeNotFound p.partId p.partCodeBlock) := by
  have hnil : cs.dropWhile (fun c => c.blockNumber? != some p.partCodeBlock) = [] := by
    refine List.dropWhile_eq_nil_iff.2 fun c hc => ?_
    have := List.any_eq_false.1 h c hc
    simpa using this
  rw [ofPlacement?, hnil]

namespace Program

open Command Placement

theorem place?_of_isMarkedIn {cs : List (Command α)} {p : Placement α} (h : p.isMarkedIn cs)
    (built : List (Part α) × List SkippedPart) :
    place? cs built p = .ok (built.1 ++ [p.part cs], built.2) := by
  rw [place?, Part.ofPlacement?_of_isMarkedIn h]

theorem place?_of_not_isMarkedIn {cs : List (Command α)} {p : Placement α}
    (h : p.isMarkedIn cs = false) (built : List (Part α) × List SkippedPart) :
    place? cs built p = .ok (built.1, built.2 ++ [p.skipped]) := by
  rw [place?, Part.ofPlacement?_of_not_isMarkedIn h]
  rfl

/-- The placements go to the two lists in order, each to exactly one of them, and none stops the
others. -/
theorem foldlM_place? (cs : List (Command α)) (ps : List (Placement α))
    (built : List (Part α) × List SkippedPart) :
    ps.foldlM (place? cs) built =
      .ok (built.1 ++ (ps.filter (isMarkedIn cs)).map (part cs),
        built.2 ++ (ps.filter fun q => !q.isMarkedIn cs).map skipped) := by
  induction ps generalizing built with
  | nil =>
    simp only [List.filter_nil, List.map_nil, List.append_nil]
    rfl
  | cons p ps ih =>
    rw [List.foldlM_cons]
    cases h : p.isMarkedIn cs with
    | true =>
      rw [place?_of_isMarkedIn h, List.filter_cons_of_pos h, List.filter_cons_of_neg (by simp [h]),
        List.map_cons, List.append_cons built.1 _ (List.map _ _)]
      exact ih _
    | false =>
      rw [place?_of_not_isMarkedIn h, List.filter_cons_of_neg (by simp [h]),
        List.filter_cons_of_pos (by simp [h]), List.map_cons,
        List.append_cons built.2 _ (List.map _ _)]
      exact ih _

/-- With both sections the program is assembled, whatever placements it has. -/
theorem exists_ofCommands? {cs : List (Command α)} (hd : HasDatabase cs) (hs : HasSetup cs)
    (keep : Bool) :
    ∃ p, ofCommands? cs keep = .ok p ∧ p.placements = placementsIn cs ∧
      p.parts = ((placementsIn cs).filter (isMarkedIn cs)).map (part cs) ∧
      p.skippedParts = ((placementsIn cs).filter fun q => !q.isMarkedIn cs).map skipped := by
  obtain ⟨m, hm⟩ := exists_sectionIn? .database (hasDatabase_iff.1 hd)
  obtain ⟨s, hs⟩ := exists_sectionIn? .setup (hasSetup_iff.1 hs)
  rw [ofCommands?, materialIn?, setupIn?, hm, hs]
  simp only [foldlM_place?, List.nil_append]
  exact ⟨_, rfl, rfl, rfl, rfl⟩

theorem ofCommands?_eq_error_iff {cs : List (Command α)} {keep : Bool} {e : ProgramError} :
    ofCommands? cs keep = .error e ↔
      (¬HasDatabase cs ∧ e = .missingSection .database) ∨
        (HasDatabase cs ∧ ¬HasSetup cs ∧ e = .missingSection .setup) := by
  by_cases hd : HasDatabase cs
  · by_cases hs : HasSetup cs
    · obtain ⟨p, hp, -⟩ := exists_ofCommands? hd hs keep
      simp [hp, hd, hs]
    · obtain ⟨m, hm⟩ := exists_sectionIn? .database (hasDatabase_iff.1 hd)
      have he : ofCommands? cs keep = .error (.missingSection .setup) := by
        rw [ofCommands?, materialIn?, setupIn?, hm,
          sectionIn?_eq_error .setup (hs ∘ hasSetup_iff.2)]
        rfl
      simp [he, hd, hs, eq_comm]
  · have he : ofCommands? cs keep = .error (.missingSection .database) := by
      rw [ofCommands?, materialIn?, sectionIn?_eq_error .database (hd ∘ hasDatabase_iff.2)]
      rfl
    simp [he, hd, eq_comm]

/-- What is assembled of the placements, whenever a program is. -/
theorem lists_of_ofCommands? {cs : List (Command α)} {keep : Bool} {p : Program α}
    (h : ofCommands? cs keep = .ok p) :
    p.placements = placementsIn cs ∧
      p.parts = ((placementsIn cs).filter (isMarkedIn cs)).map (part cs) ∧
      p.skippedParts = ((placementsIn cs).filter fun q => !q.isMarkedIn cs).map skipped := by
  have hok (e : ProgramError) : ofCommands? cs keep ≠ .error e := by
    intro he
    rw [h] at he
    cases he
  have hd : HasDatabase cs := by
    by_contra hd
    exact hok _ (ofCommands?_eq_error_iff.2 (.inl ⟨hd, rfl⟩))
  have hs : HasSetup cs := by
    by_contra hs
    exact hok _ (ofCommands?_eq_error_iff.2 (.inr ⟨hd, hs, rfl⟩))
  obtain ⟨q, hq, hlists⟩ := exists_ofCommands? hd hs keep
  rw [h] at hq
  cases hq
  exact hlists

/-- A program fails exactly if a section is missing. Its placements are those declared in the
header; the ones whose block is marked give the parts and the others are skipped, both in order. -/
theorem placements_accounted_for (cs : List (Command α)) (keep : Bool) :
    (∀ e, ofCommands? cs keep = .error e ↔
      (¬HasDatabase cs ∧ e = .missingSection .database) ∨
        (HasDatabase cs ∧ ¬HasSetup cs ∧ e = .missingSection .setup)) ∧
    (HasDatabase cs → HasSetup cs → ∃ p, ofCommands? cs keep = .ok p ∧
      p.placements = (List.range (header cs).length).filterMap (placementAt? 0 (header cs)) ∧
      p.parts = (p.placements.filter (isMarkedIn cs)).map (part cs) ∧
      p.skippedParts = (p.placements.filter fun q => !q.isMarkedIn cs).map skipped ∧
      p.parts.length + p.skippedParts.length = p.placements.length ∧
      ∀ q ∈ p.placements, q.isMarkedIn cs ↔ .blockMarker q.partCodeBlock ∈ cs) := by
  refine ⟨fun _ => ofCommands?_eq_error_iff, fun hd hs => ?_⟩
  obtain ⟨p, hp, hq, hparts, hskipped⟩ := exists_ofCommands? hd hs keep
  rw [← hq] at hparts hskipped
  refine ⟨p, hp, hq.trans (placementsFrom_eq_filterMap 0 cs), hparts, hskipped, ?_,
    fun _ _ => isMarkedIn_iff⟩
  rw [hparts, hskipped, List.length_map, List.length_map]
  exact (p.placements.length_eq_length_filter_add (isMarkedIn cs)).symm

/-- Two placements, one of a block that is marked after the header. -/
def halfMarked : List (Command Float) :=
  [.call (.loadDatabase ⟨1⟩ "DB" ⟨1⟩), .call (.init 2 100 50), .blockMarker 1,
    .call (.partOrigin 0 0 0 100 1), .blockMarker 2, .call (.partOrigin 9 9 0 200 1),
    .call .programEnd, .blockMarker 100, .call .partEnd]

/-- The second placement is skipped, and the first one gives its part. -/
theorem placements_accounted_for_halfMarked :
    HasDatabase halfMarked ∧ HasSetup halfMarked ∧
      ∃ p, ofCommands? halfMarked false = .ok p ∧
        p.parts.length + p.skippedParts.length = p.placements.length ∧
        p.parts.map Part.id = ["part-1"] ∧ p.skippedParts = [⟨"part-2", 200⟩] := by
  have hd : HasDatabase halfMarked := ⟨_, _, _, List.mem_cons_self⟩
  have hs : HasSetup halfMarked := ⟨_, _, _, List.mem_cons_of_mem _ List.mem_cons_self⟩
  obtain ⟨p, hp, hq, hparts, hskipped, hlen, -⟩ := (placements_accounted_for halfMarked false).2 hd hs
  refine ⟨hd, hs, p, hp, hlen, ?_, ?_⟩
  · rw [hparts, hq]
    rfl
  · rw [hskipped, hq]
    rfl

end Program

end SheetCut
