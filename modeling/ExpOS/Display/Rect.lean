import Mathlib.Tactic.Linarith

/-!
# Rectangles of the display

A rectangle has a signed 16-bit corner and an unsigned 16-bit size, so its
far edges can lie outside the 16-bit range.  The edges are computed in wider
integers and narrowed again when a rectangle is built from them.
-/

namespace ExpOS

structure Rect where
  x : Int16
  y : Int16
  width : UInt16
  height : UInt16
deriving DecidableEq

namespace Rect

/-- The first column to the right of the rectangle. -/
def right (rect : Rect) : ℤ :=
  rect.x.toInt + rect.width.toNat

/-- The first row below the rectangle. -/
def bottom (rect : Rect) : ℤ :=
  rect.y.toInt + rect.height.toNat

/-- Addition that stops at the ends of the 16-bit range. -/
def saturatingAdd (a : Int16) (b : ℤ) : Int16 :=
  Int16.ofInt (max (-32768) (min 32767 (a.toInt + b)))

def contains (rect : Rect) (x y : Int16) : Bool :=
  x ≥ rect.x && y ≥ rect.y &&
    x < saturatingAdd rect.x rect.width.toNat &&
    y < saturatingAdd rect.y rect.height.toNat

def surfaceBounds (rect : Rect) : Rect :=
  ⟨0, 0, rect.width, rect.height⟩

/-- The rectangle between two columns and two rows. -/
def ofEdges (x1 y1 x2 y2 : ℤ) : Rect where
  x := Int16.ofInt x1
  y := Int16.ofInt y1
  width := UInt16.ofNat (x2 - x1).toNat
  height := UInt16.ofNat (y2 - y1).toNat

def translateDamage (surface damage : Rect) : Rect :=
  ⟨saturatingAdd surface.x damage.x.toInt,
    saturatingAdd surface.y damage.y.toInt, damage.width, damage.height⟩

def intersectDamage (left right : Rect) : Option Rect :=
  let x1 := max left.x.toInt right.x.toInt
  let y1 := max left.y.toInt right.y.toInt
  let x2 := min left.right right.right
  let y2 := min left.bottom right.bottom
  if x2 ≤ x1 ∨ y2 ≤ y1 then none else some (ofEdges x1 y1 x2 y2)

/-- The smallest rectangle around two, with its size narrowed to 16 bits. -/
def hull (left right : Rect) : Rect :=
  ofEdges (min left.x.toInt right.x.toInt) (min left.y.toInt right.y.toInt)
    (max left.right right.right) (max left.bottom right.bottom)

def mergeDamage : Option Rect → Option Rect → Option Rect
  | some left, some right => some (hull left right)
  | left, right => left.or right

/-! ## Covered pixels -/

/-- The pixel lies in the rectangle. -/
def Covers (rect : Rect) (x y : Int16) : Prop :=
  (rect.x.toInt ≤ x.toInt ∧ x.toInt < rect.right) ∧ rect.y.toInt ≤ y.toInt ∧ y.toInt < rect.bottom

instance (rect : Rect) (x y : Int16) : Decidable (rect.Covers x y) :=
  inferInstanceAs (Decidable (_ ∧ _))

/-- The pixel lies in a surface-local rectangle of a surface. -/
def CoversLocal (surface damage : Rect) (x y : Int16) : Prop :=
  (surface.x.toInt + damage.x.toInt ≤ x.toInt ∧ x.toInt < surface.x.toInt + damage.right) ∧
    surface.y.toInt + damage.y.toInt ≤ y.toInt ∧ y.toInt < surface.y.toInt + damage.bottom

theorem toInt_bounds (a : Int16) : -32768 ≤ a.toInt ∧ a.toInt ≤ 32767 := by
  have hlow := a.le_toInt
  have hhigh := a.toInt_lt
  omega

theorem toInt_saturatingAdd (a : Int16) (b : ℤ) : (saturatingAdd a b).toInt =
      max (-32768) (min 32767 (a.toInt + b)) := by
  apply Int16.toInt_ofInt_of_le
  · norm_num
  · norm_num

variable {x y : Int16}

/-- Stopping at the ends of the range loses no pixel. -/
theorem covers_translateDamage {surface damage : Rect} (h : CoversLocal surface damage x y) :
    (translateDamage surface damage).Covers x y := by
  obtain ⟨⟨hleft, hright⟩, htop, hbottom⟩ := h
  have hx := toInt_bounds x
  have hy := toInt_bounds y
  simp only [Rect.right, Rect.bottom] at hright hbottom
  refine ⟨⟨?_, ?_⟩, ?_, ?_⟩
  · simp only [translateDamage, toInt_saturatingAdd]
    omega
  · simp only [translateDamage, Rect.right, toInt_saturatingAdd]
    omega
  · simp only [translateDamage, toInt_saturatingAdd]
    omega
  · simp only [translateDamage, Rect.bottom, toInt_saturatingAdd]
    omega

/-! ## Rectangles in one window -/

/-- A place on the plane, the corner of a window of 65535 by 65535 pixels. -/
structure Window where
  x : ℤ
  y : ℤ

/-- The rectangle lies in the window. -/
structure InWindow (window : Window) (rect : Rect) : Prop where
  left : window.x ≤ rect.x.toInt
  right : rect.right ≤ window.x + 65535
  top : window.y ≤ rect.y.toInt
  bottom : rect.bottom ≤ window.y + 65535

instance (window : Window) (rect : Rect) : Decidable (InWindow window rect) :=
  decidable_of_iff
    ((window.x ≤ rect.x.toInt ∧ rect.right ≤ window.x + 65535) ∧
      window.y ≤ rect.y.toInt ∧ rect.bottom ≤ window.y + 65535)
    ⟨fun h => ⟨h.1.1, h.1.2, h.2.1, h.2.2⟩, fun h => ⟨⟨h.left, h.right⟩, h.top, h.bottom⟩⟩

section Hull

variable {window : Window} {left right : Rect}

/-- Inside a window the sizes are not narrowed. -/
theorem hull_edges (hleft : InWindow window left) (hright : InWindow window right) :
    (hull left right).x.toInt = min left.x.toInt right.x.toInt ∧
      (hull left right).right = max left.right right.right ∧
      (hull left right).y.toInt = min left.y.toInt right.y.toInt ∧
      (hull left right).bottom = max left.bottom right.bottom := by
  have hlx := toInt_bounds left.x
  have hly := toInt_bounds left.y
  have hrx := toInt_bounds right.x
  have hry := toInt_bounds right.y
  have hx : (hull left right).x.toInt = min left.x.toInt right.x.toInt := by
    apply Int16.toInt_ofInt_of_le
    · norm_num
      omega
    · norm_num
      omega
  have hy : (hull left right).y.toInt = min left.y.toInt right.y.toInt := by
    apply Int16.toInt_ofInt_of_le
    · norm_num
      omega
    · norm_num
      omega
  have hordered : left.x.toInt ≤ left.right ∧ left.y.toInt ≤ left.bottom :=
    ⟨by simp [Rect.right], by simp [Rect.bottom]⟩
  obtain ⟨hl1, hl2, hl3, hl4⟩ := hleft
  obtain ⟨hr1, hr2, hr3, hr4⟩ := hright
  refine ⟨hx, ?_, hy, ?_⟩
  · rw [Rect.right, hx]
    simp only [hull, ofEdges, UInt16.toNat_ofNat']
    omega
  · rw [Rect.bottom, hy]
    simp only [hull, ofEdges, UInt16.toNat_ofNat']
    omega

theorem InWindow.hull (hleft : InWindow window left) (hright : InWindow window right) :
    InWindow window (Rect.hull left right) := by
  obtain ⟨hx, hr, hy, hb⟩ := hull_edges hleft hright
  obtain ⟨hl1, hl2, hl3, hl4⟩ := hleft
  obtain ⟨hr1, hr2, hr3, hr4⟩ := hright
  refine ⟨?_, ?_, ?_, ?_⟩
  · rw [hx]
    exact le_min hl1 hr1
  · rw [hr]
    exact max_le hl2 hr2
  · rw [hy]
    exact le_min hl3 hr3
  · rw [hb]
    exact max_le hl4 hr4

theorem covers_hull (hleft : InWindow window left) (hright : InWindow window right)
    (h : left.Covers x y ∨ right.Covers x y) : (Rect.hull left right).Covers x y := by
  obtain ⟨hx, hr, hy, hb⟩ := hull_edges hleft hright
  rw [Covers, hx, hr, hy, hb]
  rcases h with ⟨⟨h1, h2⟩, h3, h4⟩ | ⟨⟨h1, h2⟩, h3, h4⟩
  · exact ⟨⟨min_le_of_left_le h1, lt_max_of_lt_left h2⟩, min_le_of_left_le h3, lt_max_of_lt_left h4⟩
  · exact ⟨⟨min_le_of_right_le h1, lt_max_of_lt_right h2⟩,
      min_le_of_right_le h3, lt_max_of_lt_right h4⟩

end Hull

/-- The damage covers the pixel. -/
def Damages (damage : Option Rect) (x y : Int16) : Prop :=
  ∃ rect ∈ damage, rect.Covers x y

section Merge

variable {window : Window} {left right : Option Rect}

theorem inWindow_mergeDamage (hleft : ∀ rect ∈ left, InWindow window rect)
    (hright : ∀ rect ∈ right, InWindow window rect) :
    ∀ rect ∈ mergeDamage left right, InWindow window rect := by
  rcases left with _ | left
  · simpa [mergeDamage] using hright
  rcases right with _ | right
  · simpa [mergeDamage] using hleft
  · rintro rect ⟨⟩
    exact (hleft left rfl).hull (hright right rfl)

/-- Merging damage in one window covers what each part covers. -/
theorem damages_mergeDamage (hleft : ∀ rect ∈ left, InWindow window rect)
    (hright : ∀ rect ∈ right, InWindow window rect) (h : Damages left x y ∨ Damages right x y) :
    Damages (mergeDamage left right) x y := by
  rcases left with _ | left
  · rcases h with ⟨_, ⟨⟩, -⟩ | h
    simpa [mergeDamage] using h
  rcases right with _ | right
  · rcases h with h | ⟨_, ⟨⟩, -⟩
    simpa [mergeDamage] using h
  refine ⟨_, rfl, covers_hull (hleft left rfl) (hright right rfl) ?_⟩
  rcases h with ⟨_, ⟨⟩, h⟩ | ⟨_, ⟨⟩, h⟩
  · exact .inl h
  · exact .inr h

end Merge

end Rect

end ExpOS
