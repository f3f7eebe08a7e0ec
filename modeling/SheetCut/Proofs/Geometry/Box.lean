import SheetCut.Proofs.Geometry.Exact
import SheetCut.Contour.Basic

/-!
# Boxes in exact arithmetic

What a box contains when it is grown by points and by other boxes. A box that is grown from the
empty one never reaches to infinity, so it is valid as soon as it contains anything.
-/

namespace SheetCut

namespace Bounds

variable {α : Type} [Scalar α]

def Contains (b : Bounds α) (q : Point α) : Prop :=
  b.min.x ≤ q.x ∧ q.x ≤ b.max.x ∧ b.min.y ≤ q.y ∧ q.y ≤ b.max.y

def Encloses (b other : Bounds α) : Prop :=
  b.min.x ≤ other.min.x ∧ other.max.x ≤ b.max.x ∧ b.min.y ≤ other.min.y ∧ other.max.y ≤ b.max.y

/-- No side lies out at infinity. The empty box is bounded too. -/
def IsBounded (b : Bounds α) : Prop :=
  -Scalar.infinity < b.min.x ∧ b.max.x < Scalar.infinity ∧
    -Scalar.infinity < b.min.y ∧ b.max.y < Scalar.infinity

end Bounds

/-- The named points of a contour: where it pierces, where its segments begin and end, and its end
position if there are segments. -/
def Contour.vertices {α : Type} (c : Contour α) : List (Point α) :=
  c.piercingPosition :: c.allSegments.flatMap (fun s => [s.start, s.stop]) ++
    if c.allSegments.isEmpty then [] else [c.endPosition]

variable [Trigonometry]

theorem Point.isFinite_iff {q : Point EReal} :
    q.isFinite = true ↔ ∃ x y : ℝ, q = ⟨x, y⟩ := by
  rw [Point.isFinite, Bool.and_eq_true, Scalar.isFinite_iff_exists, Scalar.isFinite_iff_exists]
  constructor
  · rintro ⟨⟨x, hx⟩, y, hy⟩
    exact ⟨x, y, by rw [← hx, ← hy]⟩
  · rintro ⟨x, y, rfl⟩
    exact ⟨⟨x, rfl⟩, y, rfl⟩

namespace Bounds

variable {b other B : Bounds EReal} {p q : Point EReal}

theorem update_of_isFinite (hp : p.isFinite = true) (b : Bounds EReal) :
    b.update p =
      ⟨⟨Min.min b.min.x p.x, Min.min b.min.y p.y⟩, ⟨Max.max b.max.x p.x, Max.max b.max.y p.y⟩⟩ := by
  rw [update, if_pos hp, Scalar.lower_eq_min, Scalar.lower_eq_min, Scalar.upper_eq_max,
    Scalar.upper_eq_max]

theorem update_of_not_isFinite (hp : ¬p.isFinite = true) (b : Bounds EReal) : b.update p = b :=
  if_neg hp

theorem isValid_iff : b.isValid = true ↔
    b.min.isFinite = true ∧ b.max.isFinite = true ∧ b.min.x ≤ b.max.x ∧ b.min.y ≤ b.max.y := by
  simp only [isValid, Bool.and_eq_true, decide_eq_true_eq, and_assoc]

theorem valid?_eq_some_iff : b.valid? = some other ↔ b.isValid = true ∧ b = other := by
  rw [valid?, Option.ite_none_right_eq_some, Option.some.injEq]

theorem valid?_empty : (empty : Bounds EReal).valid? = none := by
  rw [valid?, if_neg]
  intro hvalid
  exact absurd (isValid_iff.1 hvalid).2.2.1 bot_lt_top.not_ge

theorem contains_update (h : b.Contains q) (p : Point EReal) : (b.update p).Contains q := by
  by_cases hp : p.isFinite = true
  · rw [update_of_isFinite hp]
    exact ⟨(min_le_left _ _).trans h.1, h.2.1.trans (le_max_left _ _),
      (min_le_left _ _).trans h.2.2.1, h.2.2.2.trans (le_max_left _ _)⟩
  · rwa [update_of_not_isFinite hp]

theorem contains_update_self (hp : p.isFinite = true) (b : Bounds EReal) :
    (b.update p).Contains p := by
  rw [update_of_isFinite hp]
  exact ⟨min_le_right _ _, le_max_right _ _, min_le_right _ _, le_max_right _ _⟩

theorem contains_foldl_update (h : b.Contains q) (points : List (Point EReal)) :
    (points.foldl update b).Contains q :=
  List.foldlRecOn (motive := fun b => b.Contains q) points update h
    fun _ hb p _ => contains_update hb p

theorem contains_foldl_update_of_mem {points : List (Point EReal)} (hq : q ∈ points)
    (hfinite : q.isFinite = true) (b : Bounds EReal) : (points.foldl update b).Contains q := by
  induction points generalizing b with
  | nil => exact absurd hq List.not_mem_nil
  | cons p points ih =>
    rcases List.mem_cons.1 hq with rfl | hq
    · exact contains_foldl_update (contains_update_self hfinite b) points
    · exact ih hq (b.update p)

theorem contains_merge (h : b.Contains q) (other : Bounds EReal) : (b.merge other).Contains q := by
  rw [merge]
  split
  · exact contains_update (contains_update h other.min) other.max
  · exact h

/-- A box inside which a point is has its corners apart, and then both are merged. -/
theorem contains_merge_of_isValid (hvalid : other.isValid = true) (h : other.Contains q)
    (b : Bounds EReal) : (b.merge other).Contains q := by
  obtain ⟨hmin, hmax, -⟩ := isValid_iff.1 hvalid
  obtain ⟨hminx, -, hminy, -⟩ := contains_update (contains_update_self hmin b) other.max
  obtain ⟨-, hmaxx, -, hmaxy⟩ := contains_update_self hmax (b.update other.min)
  rw [merge, if_pos hvalid]
  exact ⟨hminx.trans h.1, h.2.1.trans hmaxx, hminy.trans h.2.2.1, h.2.2.2.trans hmaxy⟩

theorem isBounded_empty : (empty : Bounds EReal).IsBounded :=
  ⟨bot_lt_top, bot_lt_top, bot_lt_top, bot_lt_top⟩

theorem isBounded_update (h : b.IsBounded) (p : Point EReal) : (b.update p).IsBounded := by
  by_cases hp : p.isFinite = true
  · rw [update_of_isFinite hp]
    obtain ⟨x, y, rfl⟩ := Point.isFinite_iff.1 hp
    exact ⟨lt_min h.1 (EReal.bot_lt_coe x), max_lt h.2.1 (EReal.coe_lt_top x),
      lt_min h.2.2.1 (EReal.bot_lt_coe y), max_lt h.2.2.2 (EReal.coe_lt_top y)⟩
  · rwa [update_of_not_isFinite hp]

theorem isBounded_merge (h : b.IsBounded) (other : Bounds EReal) : (b.merge other).IsBounded := by
  rw [merge]
  split
  · exact isBounded_update (isBounded_update h other.min) other.max
  · exact h

theorem isBounded_ofPoints (points : List (Point EReal)) : (ofPoints points).IsBounded :=
  List.foldlRecOn points update isBounded_empty fun _ hb p _ => isBounded_update hb p

theorem isValid_of_contains (hb : b.IsBounded) (hq : b.Contains q) : b.isValid = true := by
  obtain ⟨hminx, hmaxx, hminy, hmaxy⟩ := hb
  obtain ⟨hqminx, hqmaxx, hqminy, hqmaxy⟩ := hq
  have hx := hqminx.trans hqmaxx
  have hy := hqminy.trans hqmaxy
  rw [isValid_iff, Point.isFinite, Point.isFinite, Bool.and_eq_true, Bool.and_eq_true,
    Scalar.isFinite_iff, Scalar.isFinite_iff, Scalar.isFinite_iff, Scalar.isFinite_iff]
  exact ⟨⟨⟨(hx.trans_lt hmaxx).ne, hminx.ne'⟩, (hy.trans_lt hmaxy).ne, hminy.ne'⟩,
    ⟨⟨hmaxx.ne, (hminx.trans_le hx).ne'⟩, hmaxy.ne, (hminy.trans_le hy).ne'⟩, hx, hy⟩

theorem isFinite_of_contains (hb : b.isValid = true) (hq : b.Contains q) : q.isFinite = true := by
  obtain ⟨hmin, hmax, -⟩ := isValid_iff.1 hb
  obtain ⟨x₀, y₀, hmin⟩ := Point.isFinite_iff.1 hmin
  obtain ⟨x₁, y₁, hmax⟩ := Point.isFinite_iff.1 hmax
  rw [Contains, hmin, hmax] at hq
  rw [Point.isFinite, Bool.and_eq_true, Scalar.isFinite_iff, Scalar.isFinite_iff]
  exact ⟨⟨(hq.2.1.trans_lt (EReal.coe_lt_top x₁)).ne, ((EReal.bot_lt_coe x₀).trans_le hq.1).ne'⟩,
    (hq.2.2.2.trans_lt (EReal.coe_lt_top y₁)).ne,
    ((EReal.bot_lt_coe y₀).trans_le hq.2.2.1).ne'⟩

theorem encloses_update (h : B.Encloses b) (hp : B.Contains p) : B.Encloses (b.update p) := by
  by_cases hfinite : p.isFinite = true
  · rw [update_of_isFinite hfinite]
    exact ⟨le_min h.1 hp.1, max_le h.2.1 hp.2.1, le_min h.2.2.1 hp.2.2.1,
      max_le h.2.2.2 hp.2.2.2⟩
  · rwa [update_of_not_isFinite hfinite]

theorem encloses_ofPoints {points : List (Point EReal)} (h : ∀ p ∈ points, B.Contains p) :
    B.Encloses (ofPoints points) :=
  List.foldlRecOn points update ⟨le_top, bot_le, le_top, bot_le⟩
    fun _ hb p hp => encloses_update hb (h p hp)

end Bounds

namespace Bounds

variable {b : Bounds EReal} {q : Point EReal} {β : Type} {box : β → Bounds EReal}

theorem isBounded_foldl_merge (h : b.IsBounded) (items : List β) :
    (items.foldl (fun b x => b.merge (box x)) b).IsBounded :=
  List.foldlRecOn items _ h fun _ hb x _ => isBounded_merge hb (box x)

theorem contains_foldl_merge (h : b.Contains q) (items : List β) :
    (items.foldl (fun b x => b.merge (box x)) b).Contains q :=
  List.foldlRecOn (motive := fun b => Contains b q) items _ h
    fun _ hb x _ => contains_merge hb (box x)

theorem contains_foldl_merge_of_mem {items : List β} {x : β} (hx : x ∈ items)
    (hbounded : (box x).IsBounded) (h : (box x).Contains q) (b : Bounds EReal) :
    (items.foldl (fun b x => b.merge (box x)) b).Contains q := by
  induction items generalizing b with
  | nil => exact absurd hx List.not_mem_nil
  | cons y items ih =>
    rcases List.mem_cons.1 hx with rfl | hx
    · exact contains_foldl_merge
        (contains_merge_of_isValid (isValid_of_contains hbounded h) h b) items
    · exact ih hx (b.merge (box y))

end Bounds

theorem Segment.contains_bounds {s : Segment EReal} {q : Point EReal}
    (hq : q = s.start ∨ q = s.stop) (hfinite : q.isFinite = true) : s.bounds.Contains q := by
  refine Bounds.contains_foldl_update_of_mem ?_ hfinite Bounds.empty
  rcases hq with rfl | rfl
  · exact List.mem_cons_self
  · exact List.mem_cons_of_mem _ List.mem_cons_self

namespace Contour

variable {c : Contour EReal} {q : Point EReal}

theorem isBounded_bounds (c : Contour EReal) : c.bounds.IsBounded := by
  have hsegments : (Bounds.ofSegments c.allSegments).IsBounded :=
    Bounds.isBounded_foldl_merge Bounds.isBounded_empty c.allSegments
  have hpierced := Bounds.isBounded_update hsegments c.piercingPosition
  rw [bounds]
  split
  · exact hpierced
  · exact Bounds.isBounded_update hpierced c.endPosition

theorem contains_bounds (hq : q ∈ c.vertices) (hfinite : q.isFinite = true) :
    c.bounds.Contains q := by
  have hend : ∀ b : Bounds EReal, b.Contains q →
      (if c.allSegments.isEmpty then b else b.update c.endPosition).Contains q := by
    intro b hb
    split
    · exact hb
    · exact Bounds.contains_update hb c.endPosition
  rw [vertices, List.cons_append, List.mem_cons, List.mem_append, List.mem_flatMap] at hq
  rcases hq with rfl | ⟨s, hs, hq⟩ | hq
  · exact hend _ (Bounds.contains_update_self hfinite _)
  · have hq : q = s.start ∨ q = s.stop := by simpa using hq
    exact hend _ (Bounds.contains_update (Bounds.contains_foldl_merge_of_mem hs
      (Bounds.isBounded_ofPoints _) (Segment.contains_bounds hq hfinite) Bounds.empty) _)
  · rw [bounds]
    split at hq
    · exact absurd hq List.not_mem_nil
    · next hsegments =>
      cases List.mem_singleton.1 hq
      rw [if_neg hsegments]
      exact Bounds.contains_update_self hfinite _

end Contour

end SheetCut
