import ExpOS.Support.Bytes

/-!
# Sequences stored in fixed-size blocks

A sequence can be kept as a list of blocks of one size.  Reading and writing
a range then walks over the blocks, one piece per block.  The walks agree with
taking and replacing a range of the flat sequence as long as the range lies
inside the blocks, and otherwise they run into a missing block.
-/

namespace ExpOS.Blocks

open List Nat

variable {α : Type*} {n : ℕ}

/-- A block of `n` items. -/
abbrev Block (α : Type*) (n : ℕ) := {items : List α // items.length = n}

/-! ## Replacing a range -/

/-- The list with `ys` in place of what stood from position `start` on. -/
def splice (xs : List α) (start : ℕ) (ys : List α) : List α :=
  xs.take start ++ ys ++ xs.drop (start + ys.length)

variable {xs ys : List α} {start : ℕ}

theorem length_splice (h : ys.length ≤ xs.length - start) :
    (splice xs start ys).length = xs.length := by
  simp only [splice, length_append, length_take, length_drop]
  omega

@[simp] theorem splice_nil (xs : List α) (start : ℕ) : splice xs start [] = xs := by
  simp [splice]

theorem getElem?_splice (h : start + ys.length ≤ xs.length) (i : ℕ) : (splice xs start ys)[i]? =
      if start ≤ i ∧ i < start + ys.length then ys[i - start]?
      else xs[i]? := by
  have htake : (xs.take start).length = start := by
    rw [length_take]
    omega
  rw [splice, append_assoc, List.getElem?_append, htake]
  by_cases hbefore : i < start
  · rw [if_pos hbefore, if_neg (by omega), List.getElem?_take_of_lt hbefore]
  rw [if_neg hbefore, List.getElem?_append]
  by_cases hin : i - start < ys.length
  · rw [if_pos hin, if_pos (by omega)]
  · rw [if_neg hin, if_neg (by omega), List.getElem?_drop]
    congr 1
    omega

/-- Two adjoining replacements are one. -/
theorem splice_splice (xs ys zs : List α) (h : start + ys.length + zs.length ≤ xs.length) :
    splice (splice xs start ys) (start + ys.length) zs = splice xs start (ys ++ zs) := by
  have hlen : (splice xs start ys).length = xs.length := length_splice (by omega)
  apply ext_getElem?
  intro i
  rw [getElem?_splice (by rw [hlen]; omega), getElem?_splice (by omega),
    getElem?_splice (by rw [length_append]; omega), length_append]
  by_cases hys : start ≤ i ∧ i < start + ys.length
  · rw [if_neg (by omega), if_pos hys, if_pos (by omega), List.getElem?_append_left (by omega)]
  by_cases hzs : start + ys.length ≤ i ∧ i < start + ys.length + zs.length
  · rw [if_pos hzs, if_pos (by omega), List.getElem?_append_right (by omega)]
    congr 1
    omega
  · rw [if_neg hzs, if_neg hys, if_neg (by omega)]

/-! ## The flat sequence -/

/-- The items of all blocks in order. -/
def flat (blocks : List (Block α n)) : List α :=
  (blocks.map Subtype.val).flatten

@[simp] theorem flat_nil : flat ([] : List (Block α n)) = [] := rfl

@[simp] theorem flat_cons (b : Block α n) (blocks : List (Block α n)) :
    flat (b :: blocks) = b.val ++ flat blocks := rfl

@[simp] theorem flat_append (blocks others : List (Block α n)) :
    flat (blocks ++ others) = flat blocks ++ flat others := by
  simp [flat]

@[simp] theorem length_flat (blocks : List (Block α n)) :
    (flat blocks).length = blocks.length * n := by
  induction blocks with
  | nil => simp
  | cons b blocks ih =>
    rw [flat_cons, length_append, ih, b.property, length_cons, succ_mul, add_comm]

/-- The block at `index` of a sequence, filled up behind its end. -/
def padded (fill : α) (items : List α) (index : ℕ) : Block α n :=
  let piece := (items.drop (index * n)).take n
  ⟨piece ++ List.replicate (n - piece.length) fill, by
    have h : piece.length ≤ n := List.length_take_le _ _
    rw [List.length_append, List.length_replicate]
    omega⟩

/-- The padded blocks of a sequence spell it. -/
theorem flat_padded (fill : α) (items : List α) (k : ℕ) :
    flat ((List.range k).map (padded (n := n) fill items)) =
      items.take (k * n) ++ List.replicate (k * n - items.length) fill := by
  induction k with
  | zero => simp
  | succ k ih =>
    rw [range_succ, map_append, flat_append, ih, succ_mul]
    simp only [map_cons, map_nil, flat_cons, flat_nil, append_nil, padded, length_take, length_drop]
    by_cases hend : items.length ≤ k * n
    · have hmore : items.length ≤ k * n + n := by omega
      rw [drop_of_length_le hend, take_of_length_le hend,
        take_of_length_le hmore, take_nil, nil_append, append_assoc,
        replicate_append_replicate]
      congr 2
      omega
    · have hpad : k * n - items.length = 0 := by omega
      rw [hpad, replicate_zero, append_nil, take_add, append_assoc]
      congr 3
      omega

variable {blocks : List (Block α n)}

theorem flat_injective {others : List (Block α n)} (hlen : blocks.length = others.length)
    (hflat : flat blocks = flat others) : blocks = others := by
  induction blocks generalizing others with
  | nil => exact (eq_nil_of_length_eq_zero hlen.symm).symm
  | cons b blocks ih =>
    cases others with
    | nil => simp at hlen
    | cons c others =>
      obtain ⟨hhead, htail⟩ := append_inj hflat (b.property.trans c.property.symm)
      rw [Subtype.ext hhead, ih (by simpa using hlen) htail]

variable {b : Block α n}

/-- A range inside one block is a range of the flat sequence. -/
theorem take_drop_flat {q w k : ℕ} (hb : blocks[q]? = some b) (hk : w + k ≤ n) :
    ((flat blocks).drop (q * n + w)).take k = (b.val.drop w).take k := by
  induction blocks generalizing q with
  | nil => simp at hb
  | cons c blocks ih =>
    cases q with
    | zero =>
      simp only [List.getElem?_cons_zero, Option.some.injEq] at hb
      subst hb
      rw [flat_cons, zero_mul, zero_add,
        drop_append_of_le_length (by rw [c.property]; omega),
        take_append_of_le_length]
      rw [length_drop]
      omega
    | succ q =>
      have hstep : (q + 1) * n + w = c.val.length + (q * n + w) := by
        rw [succ_mul]
        omega
      rw [flat_cons, hstep, drop_length_add_append]
      exact ih hb

/-- Replacing a range inside one block replaces it in the flat sequence. -/
theorem flat_set {q w : ℕ} {c : Block α n}
    {piece : List α} (hb : blocks[q]? = some b) (hpiece : w + piece.length ≤ n)
    (hc : c.val = splice b.val w piece) :
    flat (blocks.set q c) = splice (flat blocks) (q * n + w) piece := by
  induction blocks generalizing q with
  | nil => simp at hb
  | cons d blocks ih =>
    cases q with
    | zero =>
      simp only [List.getElem?_cons_zero, Option.some.injEq] at hb
      subst hb
      rw [set_cons_zero, flat_cons, flat_cons, hc, zero_mul]
      simp only [splice]
      rw [take_append_of_le_length (by rw [d.property]; omega),
        drop_append_of_le_length (by rw [d.property]; omega)]
      simp [append_assoc]
    | succ q =>
      have hstep : (q + 1) * n + w = d.val.length + (q * n + w) := by
        rw [succ_mul]
        omega
      rw [set_cons_succ, flat_cons, flat_cons, ih (by simpa using hb), hstep]
      simp only [splice, add_assoc]
      rw [take_length_add_append]
      simp [append_assoc]

/-! ## Walking over a range -/

/-- How much of the range is left inside the block at `position`. -/
def pieceLength (n position left : ℕ) : ℕ :=
  min (n - position % n) left

theorem length_piece_le (items : List α) (position copied left : ℕ) :
    ((items.drop copied).take (pieceLength n position left)).length ≤ n - position % n := by
  rw [length_take, pieceLength]
  omega

/-- Copy `count` items from `offset` on into `output`, block by block. -/
def readLoop (blocks : List (Block α n)) (offset count : ℕ) : ℕ → ℕ → List α → Option (List α)
  | 0, copied, output => if copied < count then none else some output
  | fuel + 1, copied, output =>
    if copied < count then
      let position := offset + copied
      let take := pieceLength n position (count - copied)
      match blocks[position / n]? with
      | none => none
      | some block =>
        readLoop blocks offset count fuel (copied + take)
          (splice output copied
            ((block.val.drop (position % n)).take take))
    else
      some output

/-- Copy `items` to `offset` and beyond, block by block. -/
def writeLoop (offset : ℕ) (items : List α) : ℕ → ℕ → List (Block α n) → Option (List (Block α n))
  | 0, copied, blocks =>
    if copied < items.length then none else some blocks
  | fuel + 1, copied, blocks =>
    if copied < items.length then
      let position := offset + copied
      let take := pieceLength n position (items.length - copied)
      match blocks[position / n]? with
      | none => none
      | some block =>
        writeLoop offset items fuel (copied + take)
          (blocks.set (position / n)
            ⟨splice block.val (position % n)
              ((items.drop copied).take take), by
              rw [length_splice, block.property]
              rw [block.property]
              exact length_piece_le items position copied _⟩)
    else
      some blocks

section Walk

variable (hn : 0 < n)
include hn

theorem pieceLength_pos (position : ℕ) {left : ℕ} (hleft : 0 < left) :
    0 < pieceLength n position left := by
  have hmod := mod_lt position hn
  rw [pieceLength]
  omega

omit hn in
theorem pieceLength_le (position left : ℕ) : pieceLength n position left ≤ left :=
  Nat.min_le_right _ _

theorem mod_add_pieceLength_le (position left : ℕ) :
    position % n + pieceLength n position left ≤ n := by
  have hmod := mod_lt position hn
  rw [pieceLength]
  omega

variable {blocks : List (Block α n)} {offset count fuel : ℕ} {output : List α}

/-- A piece of a range inside the blocks lies in one of them. -/
theorem piece_spec (hrange : offset + count ≤ blocks.length * n) {copied : ℕ}
    (hlt : copied < count) : let k := pieceLength n (offset + copied) (count - copied)
    0 < k ∧ k ≤ count - copied ∧ (offset + copied) % n + k ≤ n ∧
      (offset + copied) / n < blocks.length :=
  ⟨pieceLength_pos hn _ (by omega), pieceLength_le _ _, mod_add_pieceLength_le hn _ _,
    (div_lt_iff_lt_mul hn).mpr (by omega)⟩

/-- Inside the blocks a read copies the range of the flat sequence. -/
theorem readLoop_eq (hrange : offset + count ≤ blocks.length * n)
    {copied : ℕ} (hcopied : copied ≤ count)
    (hfuel : count - copied ≤ fuel) (houtput : count ≤ output.length) :
    readLoop blocks offset count fuel copied output = some (splice output copied
        (((flat blocks).drop (offset + copied)).take (count - copied))) := by
  induction fuel generalizing copied output with
  | zero =>
    obtain rfl : copied = count := by omega
    simp [readLoop]
  | succ fuel ih =>
    by_cases hlt : copied < count
    · obtain ⟨hpos, hle, hfit, hq⟩ := piece_spec hn hrange hlt
      have hblock := List.getElem?_eq_getElem hq
      simp only [readLoop, if_pos hlt, hblock]
      generalize pieceLength n (offset + copied) (count - copied) = k at hpos hle hfit ⊢
      -- The piece is a range of the flat sequence, and the rest of the
      -- walk copies the range right after it.
      have hpiece := take_drop_flat hblock hfit
      rw [mul_comm, div_add_mod] at hpiece
      rw [← hpiece]
      have hlen : (((flat blocks).drop (offset + copied)).take k).length = k := by
        rw [length_take, length_drop, length_flat]
        omega
      rw [ih (by omega) (by omega) (by rw [length_splice (by rw [hlen]; omega)]; omega)]
      have hsplice := splice_splice output (((flat blocks).drop (offset + copied)).take k)
        (((flat blocks).drop (offset + (copied + k))).take (count - (copied + k)))
        (show copied + _ + _ ≤ _ by
          rw [hlen, length_take]
          omega)
      rw [hlen] at hsplice
      rw [hsplice]
      congr 2
      have hsplit : count - copied = k + (count - (copied + k)) := by
        omega
      rw [hsplit, take_add, drop_drop, add_assoc]
    · obtain rfl : copied = count := by omega
      simp [readLoop]

/-- Past the blocks a read runs into a missing block. -/
theorem readLoop_eq_none (hrange : blocks.length * n < offset + count)
    {copied : ℕ} (hcopied : copied < count) :
    readLoop blocks offset count fuel copied output = none := by
  induction fuel generalizing copied output with
  | zero => simp [readLoop, hcopied]
  | succ fuel ih =>
    simp only [readLoop, if_pos hcopied]
    split
    · rfl
    rename_i block hblock
    -- This piece lies in a block, so it ends before the range does.
    obtain ⟨hq, -⟩ := List.getElem?_eq_some_iff.mp hblock
    have hfit := mod_add_pieceLength_le hn (offset + copied) (count - copied)
    have hdiv := div_add_mod (offset + copied) n
    have hblocks : (offset + copied) / n * n + n ≤ blocks.length * n := by
      rw [← succ_mul]
      exact mul_le_mul_right n hq
    rw [mul_comm] at hdiv
    exact ih (by omega)

/-- Inside the blocks a write replaces the range of the flat sequence. -/
theorem writeLoop_eq {items : List α} (hrange : offset + items.length ≤ blocks.length * n)
    {copied : ℕ} (hcopied : copied ≤ items.length) (hfuel : items.length - copied ≤ fuel) :
    ∃ blocks', writeLoop offset items fuel copied blocks = some blocks' ∧
      blocks'.length = blocks.length ∧ flat blocks' =
        splice (flat blocks) (offset + copied) (items.drop copied) := by
  induction fuel generalizing copied blocks with
  | zero =>
    obtain rfl : copied = items.length := by omega
    exact ⟨blocks, by simp [writeLoop], rfl, by simp⟩
  | succ fuel ih =>
    by_cases hlt : copied < items.length
    · obtain ⟨hpos, hle, hfit, hq⟩ := piece_spec hn hrange hlt
      have hblock := List.getElem?_eq_getElem hq
      simp only [writeLoop, if_pos hlt, hblock]
      generalize hc : (⟨splice (blocks[(offset + copied) / n]).val _ _, _⟩ : Block α n) = c
      have hval := congrArg Subtype.val hc
      simp only at hval
      generalize pieceLength n (offset + copied) (items.length - copied) = k at hpos hle hfit hval ⊢
      have hlen : ((items.drop copied).take k).length = k := by
        rw [length_take, length_drop]
        omega
      obtain ⟨blocks', hwrite, hlength, hflat⟩ :=
        @ih (blocks.set ((offset + copied) / n) c) (by rw [length_set]; exact hrange)
          (copied + k) (by omega) (by omega)
      refine ⟨blocks', hwrite, ?_, ?_⟩
      · rw [hlength, length_set]
      have hset := flat_set hblock (by rw [hlen]; exact hfit) hval.symm
      rw [mul_comm, div_add_mod] at hset
      rw [hflat, hset]
      have hsplice := splice_splice (flat blocks)
        ((items.drop copied).take k) (items.drop (copied + k))
        (show offset + copied + _ + _ ≤ _ by
          rw [length_drop, length_flat]
          omega)
      rw [hlen, add_assoc] at hsplice
      rw [hsplice, ← drop_drop, take_append_drop]
    · obtain rfl : copied = items.length := by omega
      exact ⟨blocks, by simp [writeLoop], rfl, by simp⟩

end Walk

end ExpOS.Blocks
