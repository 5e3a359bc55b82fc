import ExpOS.Support.Counter
import Mathlib.Algebra.Group.Int.Defs
import Mathlib.Algebra.Group.Prod
import Mathlib.Data.List.Chain

/-!
# Snake

The food is never under the snake: the cells that the search for a place tries
are more than the snake can cover.
-/

namespace ExpOS

abbrev Cell := ℤ × ℤ

def snakeCapacity : ℕ := 96

/-- `body` holds the first `len` entries of `x` and `y`. -/
structure Snake where
  body : List Cell
  direction : Cell
  next : Cell
  food : Cell
  score : ℕ
  alive : Bool
  started : Bool

namespace Snake

open List

def new : Snake :=
  ⟨[(16, 10), (15, 10), (14, 10)], (1, 0), (1, 0), (23, 10), 0, true, false⟩

def turn (s : Snake) (direction : Cell) : Snake :=
  { s with
    started := true
    next := if direction ≠ -s.direction then direction else s.next }

abbrev OnBoard (cell : Cell) : Prop :=
  (0 ≤ cell.1 ∧ cell.1 < 32) ∧ 0 ≤ cell.2 ∧ cell.2 < 20

def candidate (seed attempt : ℕ) : Cell :=
  (((seed * 7 + attempt * 13) % 32 : ℕ), ((seed * 5 + attempt * 17) % 20 : ℕ))

/-- The bounded search for a free cell. -/
def place (seed : ℕ) (body : List Cell) : Option Cell :=
  ((range (32 * 20)).map (candidate seed)).find? (· ∉ body)

def tick (s : Snake) : Snake :=
  if !s.alive then s
  else
    let head := s.body.headD (0, 0) + s.next
    if ¬ OnBoard head ∨ head ∈ s.body.dropLast then
      { s with direction := s.next, alive := false }
    else
      let grows : Bool := head = s.food ∧ s.body.length < snakeCapacity
      let len := if grows then s.body.length + 1 else s.body.length
      let score := if grows then min 65535 (s.score + 10) else s.score
      let body := (head :: s.body).take len
      { s with
        direction := s.next
        body
        score
        food := if head = s.food then (place (score + len * 11) body).getD s.food else s.food }

/-- The arrow keys. -/
def directions : List Cell :=
  [(0, -1), (0, 1), (-1, 0), (1, 0)]

inductive Move where
  | turn (direction : Cell) (h : direction ∈ directions)
  | tick

def step (s : Snake) : Move → Snake
  | .turn direction _ => s.turn direction
  | .tick => s.tick

structure Valid (s : Snake) : Prop where
  distinct : s.body.Nodup
  onBoard : ∀ cell ∈ s.body, OnBoard cell
  adjacent : s.body.IsChain fun a b => a - b ∈ directions
  food_onBoard : OnBoard s.food
  food_free : s.food ∉ s.body
  nonempty : s.body ≠ []
  length_le : s.body.length ≤ snakeCapacity
  next : s.next ∈ directions

theorem place_eq_some {body : List Cell} (h : body.length ≤ snakeCapacity) (seed : ℕ) :
    ∃ cell, place seed body = some cell ∧ OnBoard cell ∧ cell ∉ body := by
  obtain ⟨j, hj, hfree⟩ := exists_lt_notMem (g := candidate seed) (n := 160) (l := body)
    (Nat.lt_of_le_of_lt h (by decide)) (by
      intro i hi j hj heq
      obtain ⟨hx, hy⟩ := Prod.mk.inj heq
      omega)
  obtain ⟨cell, hcell⟩ : ∃ cell, place seed body = some cell :=
    Option.isSome_iff_exists.mp (find?_isSome.mpr ⟨candidate seed j,
      mem_map_of_mem (mem_range.mpr (by omega)), by simpa using hfree⟩)
  obtain ⟨attempt, -, rfl⟩ := mem_map.mp (mem_of_find?_eq_some hcell)
  refine ⟨_, hcell, ?_, by simpa using find?_some hcell⟩
  simp only [candidate, OnBoard]
  omega

variable {s : Snake}

/-- A snake that has moved its head and kept all or all but the last of the
rest. -/
theorem Valid.move (h : s.Valid) {head : Cell} {rest : List Cell} (hrest : rest <+: s.body)
    (hhead : head = s.body.headD (0, 0) + s.next) (hboard : OnBoard head) (hfree : head ∉ rest) :
    (head :: rest).Nodup ∧ (∀ cell ∈ head :: rest, OnBoard cell) ∧
      (head :: rest).IsChain fun a b => a - b ∈ directions := by
  refine ⟨nodup_cons.mpr ⟨hfree, h.distinct.sublist hrest.sublist⟩,
    forall_mem_cons.mpr ⟨hboard, fun cell hcell => h.onBoard cell (hrest.subset hcell)⟩, ?_⟩
  have hchain := h.adjacent.prefix hrest
  obtain ⟨later, hbody⟩ := hrest
  cases rest with
  | nil => exact .singleton _
  | cons first rest =>
    refine .cons_cons ?_ hchain
    rw [hhead, ← hbody]
    simpa using h.next

theorem Valid.tick (h : s.Valid) : s.tick.Valid := by
  rw [Snake.tick]
  split
  · exact h
  extract_lets head grows len score body
  split
  · exact { h with }
  next hstop =>
  obtain ⟨hboard, hbody⟩ := not_or.mp hstop
  obtain ⟨rest, hrest, htake, hfree, hlength⟩ : ∃ rest, rest <+: s.body ∧ body = head :: rest ∧
      head ∉ rest ∧ rest.length < snakeCapacity := by
    by_cases hgrows : grows = true
    · obtain ⟨hfood, hlt⟩ := of_decide_eq_true hgrows
      refine ⟨s.body, prefix_rfl, ?_, hfood ▸ h.food_free, hlt⟩
      simp [body, len, hgrows]
    · refine ⟨s.body.dropLast, dropLast_prefix _, ?_, hbody, ?_⟩
      · obtain ⟨first, later, hcons⟩ := exists_cons_of_ne_nil h.nonempty
        simp [body, len, hgrows, hcons, dropLast_eq_take]
      · have := h.length_le
        have := length_pos_of_ne_nil h.nonempty
        rw [length_dropLast]
        omega
  obtain ⟨hdistinct, hon, hchain⟩ := h.move hrest rfl (not_not.mp hboard) hfree
  obtain ⟨cell, hcell, hcellBoard, hcellFree⟩ :=
    @place_eq_some (head :: rest) hlength (score + len * 11)
  rw [htake, hcell, Option.getD_some]
  refine ⟨hdistinct, hon, hchain, ?_, ?_, cons_ne_nil _ _, hlength, h.next⟩
  · split
    · exact hcellBoard
    · exact h.food_onBoard
  · split
    · exact hcellFree
    · next hne =>
      exact not_mem_cons_of_ne_of_not_mem (Ne.symm hne) fun hmem =>
        h.food_free (hrest.subset hmem)

theorem Valid.step (h : s.Valid) (move : Move) : (s.step move).Valid := by
  cases move with
  | turn direction hdirection =>
    refine { h with next := ?_ }
    change (if _ then _ else _) ∈ directions
    split
    · exact hdirection
    · exact h.next
  | tick => exact h.tick

/-- The board after any moves, and the search for food at any length. -/
theorem snake_valid (moves : List Move) : (moves.foldl step new).Valid ∧
    ∀ body : List Cell, body.length ≤ snakeCapacity → ∀ seed, ∃ cell,
      place seed body = some cell ∧ OnBoard cell ∧ cell ∉ body := by
  refine ⟨?_, fun _ h => place_eq_some h⟩
  induction moves using List.reverseRecOn with
  | nil => constructor <;> decide
  | append_singleton moves move ih =>
    rw [foldl_append]
    exact ih.step move

end Snake

end ExpOS
