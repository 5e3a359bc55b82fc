import ExpOS.Support.Bytes
import ExpOS.Support.Outcome

/-!
# Reading and writing records at a cursor

A `Reader` walks over a byte string at an offset it moves; a `Writer` appends
to a buffer of bounded size.  A record codec is a reader and a writer of the
same record, and the two rules that compose such pairs are all a round-trip
proof needs: what a writer `Emits`, the matching reader `Consumes`.
-/

namespace ExpOS

open List Effect

variable {ε α β : Type}

/-- A computation that reads a byte string at an offset. -/
abbrev Reader (ε α : Type) := ReaderT Bytes (Effect ℕ ε) α

/-- A computation that appends to a buffer. -/
abbrev Writer (ε α : Type) := Effect Bytes ε α

namespace Reader

/-- Stop with an error. -/
def fail (error : ε) : Reader ε α := fun _ => Effect.fail error

/-- Continue with the end of a call that touches no cursor. -/
def lift (x : Outcome ε α) : Reader ε α := fun _ => Effect.lift x

/-- Stop with an error unless a condition holds. -/
def require (error : ε) (condition : Prop) [Decidable condition] : Reader ε Unit :=
  if condition then pure () else fail error

/-- The next `length` octets. -/
def take (error : ε) (length : ℕ) : Reader ε Bytes := fun input =>
  { run := fun offset =>
      if offset + length ≤ input.length then
        (.done ((input.drop offset).take length), offset + length)
      else
        (.fail error, offset) }

/-- Move the cursor without looking at what it passes. -/
def skip (length : ℕ) : Reader ε Unit := fun _ =>
  { run := fun offset => (.done (), offset + length) }

/-- The next octet. -/
def byte (error : ε) : Reader ε UInt8 := do
  let octets ← take error 1
  pure (octets.headD 0)

/-- The next word of `width` octets, least significant first. -/
def word (error : ε) (width : ℕ) : Reader ε ℕ := do
  let octets ← take error width
  pure (Bytes.fromLeBytes octets)

/-- The same reader a fixed number of times. -/
def times (reader : Reader ε α) : (count : ℕ) → Reader ε {items : List α // items.length = count}
  | 0 => pure ⟨[], rfl⟩
  | count + 1 => do
      let item ← reader
      let items ← times reader count
      pure ⟨item :: items.val, by simp [items.property]⟩

/-- From the start of `octets`, wherever they stand, the reader returns
`value` and moves past them. -/
def Consumes (reader : Reader ε α) (octets : Bytes) (value : α) : Prop :=
  ∀ before after, (reader (before ++ octets ++ after)).run before.length =
    (.done value, before.length + octets.length)

theorem consumes_pure (value : α) : Consumes (pure value : Reader ε α) [] value := by
  intro before after
  rfl

variable {octets : Bytes}

variable {reader : Reader ε α} {next : α → Reader ε β} {a : α} {b : β}

theorem Consumes.bind {others : Bytes}
    (h : Consumes reader octets a) (hnext : Consumes (next a) others b) :
    Consumes (reader >>= next) (octets ++ others) b := by
  intro before after
  have hfirst := h before (others ++ after)
  have hsecond := hnext (before ++ octets) after
  rw [length_append] at hsecond
  have hinput : before ++ (octets ++ others) ++ after = before ++ octets ++ (others ++ after) := by
    simp [append_assoc]
  have hinput' : before ++ octets ++ others ++ after = before ++ octets ++ (others ++ after) := by
    simp [append_assoc]
  rw [hinput'] at hsecond
  rw [hinput]
  change ((reader _) >>= fun a => next a _).run _ = _
  rw [run_bind, hfirst]
  simp only
  rw [hsecond, length_append, Nat.add_assoc]

/-- Octets at the end of the input. -/
theorem Consumes.run_end (h : Consumes reader octets a) {before : Bytes} {offset : ℕ}
    (hoffset : before.length = offset) : (reader (before ++ octets)).run offset =
      (.done a, offset + octets.length) := by
  have hrun := h before []
  rwa [append_nil, hoffset] at hrun

/-- A last step that reads nothing. -/
theorem Consumes.bind_nil (h : Consumes reader octets a) (hnext : Consumes (next a) [] b) :
    Consumes (reader >>= next) octets b := by
  have hbind := h.bind hnext
  rwa [append_nil] at hbind

/-- A first step that reads nothing. -/
theorem Consumes.nil_bind (h : Consumes reader [] a) (hnext : Consumes (next a) octets b) :
    Consumes (reader >>= next) octets b :=
  h.bind hnext

theorem consumes_require {error : ε} {condition : Prop} [Decidable condition] (h : condition) :
    Consumes (require error condition) [] () := by
  rw [require, if_pos h]
  exact consumes_pure ()

theorem consumes_lift {x : Outcome ε α} {value : α}
    (h : x = .done value) : Consumes (lift x) [] value := by
  intro before after
  rw [h]
  rfl

variable {length : ℕ} (error : ε)

theorem consumes_take (h : octets.length = length) :
    Consumes (take error length) octets octets := by
  intro before after
  subst h
  simp [take]

theorem consumes_skip (h : octets.length = length) :
    Consumes (skip length : Reader ε Unit) octets () := by
  intro before after
  subst h
  rfl

theorem consumes_byte (b : UInt8) : Consumes (byte error) [b] b := by
  have h : Consumes (take error 1) [b] [b] := consumes_take error rfl
  exact h.bind_nil (consumes_pure b)

theorem consumes_word {width n : ℕ} (h : n < 256 ^ width) :
    Consumes (word error width) (Bytes.toLeBytes width n) n := by
  refine (consumes_take error (Bytes.length_toLeBytes width n)).bind_nil ?_
  rw [Bytes.fromLeBytes_toLeBytes_of_lt h]
  exact consumes_pure n

theorem consumes_times {encode : α → Bytes}
    {items : List α} (h : ∀ a ∈ items, Consumes reader (encode a) a) :
    Consumes (times reader items.length) (items.flatMap encode) ⟨items, rfl⟩ := by
  induction items with
  | nil => exact consumes_pure _
  | cons a items ih =>
    refine (h a mem_cons_self).bind ?_
    exact (ih fun b hb => h b (mem_cons_of_mem a hb)).bind_nil (consumes_pure _)

theorem yields_take (length : ℕ) (input : Bytes) :
    Effect.Yields (fun octets => octets.length = length) (take error length input) := by
  intro offset octets stop h
  simp only [take] at h
  split at h
  · next hle =>
      obtain ⟨hdone, -⟩ := Prod.mk.inj h
      obtain rfl := Outcome.done.inj hdone
      rw [length_take, length_drop]
      exact Nat.min_eq_left (by omega)
  · cases h

/-! ## Readers that halt -/

section Halts

variable {input : Bytes} {offset : ℕ}

/-- The reader halts from the offset. -/
def Halts (reader : Reader ε α) (input : Bytes) (offset : ℕ) : Prop :=
  ((reader input).run offset).1 = .halt

/-- The reader never halts. -/
def Safe (reader : Reader ε α) : Prop :=
  ∀ input offset, ¬ Halts reader input offset

variable {reader : Reader ε α} {next : α → Reader ε β}

/-- A composite reader halts exactly when one of its parts does. -/
theorem halts_bind :
    Halts (reader >>= next) input offset ↔ Halts reader input offset ∨
        ∃ a stop, (reader input).run offset = (.done a, stop) ∧ Halts (next a) input stop := by
  change ((reader input >>= fun a => next a input).run offset).1 = .halt ↔
    ((reader input).run offset).1 = .halt ∨ _
  rw [run_bind]
  rcases (reader input).run offset with ⟨a | _ | _, stop⟩
  · constructor
    · intro h
      exact .inr ⟨a, stop, rfl, h⟩
    rintro (h | ⟨a', stop', hx, h⟩)
    · cases h
    · cases hx
      exact h
  · simp
  · simp

theorem Safe.halts_bind (h : Safe reader) :
    Halts (reader >>= next) input offset ↔ ∃ a stop, (reader input).run offset = (.done a, stop) ∧
        Halts (next a) input stop := by
  rw [Reader.halts_bind, or_iff_right (h input offset)]

theorem Safe.bind (h : Safe reader) (hnext : ∀ a, Safe (next a)) : Safe (reader >>= next) := by
  intro input offset hhalts
  obtain ⟨a, stop, -, hstop⟩ := h.halts_bind.mp hhalts
  exact hnext a input stop hstop

/-- Only the first part of the reader can halt. -/
theorem halts_bind_safe (hnext : ∀ a, Safe (next a)) :
    Halts (reader >>= next) input offset ↔ Halts reader input offset := by
  rw [halts_bind]
  constructor
  · rintro (h | ⟨a, stop, -, h⟩)
    · exact h
    · exact absurd h (hnext a input stop)
  · exact .inl

theorem safe_pure (a : α) : Safe (pure a : Reader ε α) := by
  rintro input offset ⟨⟩

theorem safe_skip (length : ℕ) : Safe (skip length : Reader ε Unit) := by
  rintro input offset ⟨⟩

variable {x : Outcome ε α}

theorem halts_lift : Halts (lift x) input offset ↔ x = .halt :=
  Iff.rfl

theorem safe_lift (h : x ≠ .halt) : Safe (lift x) :=
  fun _ _ => h

variable (error : ε)

theorem safe_require (condition : Prop) [Decidable condition] : Safe (require error condition) := by
  rw [require]
  split
  · exact safe_pure ()
  · rintro input offset ⟨⟩

theorem safe_take (length : ℕ) : Safe (take error length) := by
  intro input offset h
  simp only [Halts, take] at h
  split at h
  · cases h
  · cases h

/-- A repeated reader halts at the first repetition that halts. -/
theorem halts_times {count : ℕ} : Halts (times reader count) input offset ↔
      ∃ k < count, ∃ items stop, (times reader k input).run offset = (.done items, stop) ∧
          Halts reader input stop := by
  induction count generalizing offset with
  | zero =>
    constructor
    · intro h
      cases h
    · rintro ⟨k, hk, -⟩
      exact absurd hk (Nat.not_lt_zero k)
  | succ count ih =>
    rw [times, halts_bind]
    constructor
    · rintro (h | ⟨item, middle, hitem, h⟩)
      · exact ⟨0, Nat.succ_pos count, _, offset, rfl, h⟩
      rw [halts_bind_safe fun items => safe_pure _, ih] at h
      obtain ⟨k, hk, items, stop, hitems, hhalts⟩ := h
      refine ⟨k + 1, Nat.succ_lt_succ hk, _, stop, run_bind_eq_done.mpr ⟨item, middle, hitem,
          run_bind_eq_done.mpr ⟨items, stop, hitems, rfl⟩⟩,
        hhalts⟩
    · rintro ⟨k, hk, items, stop, hitems, hhalts⟩
      cases k with
      | zero =>
        cases hitems
        exact .inl hhalts
      | succ k =>
        obtain ⟨item, middle, hitem, hrest⟩ := run_bind_eq_done.mp hitems
        obtain ⟨rest, stop', hrest, hpure⟩ := run_bind_eq_done.mp hrest
        cases hpure
        refine .inr ⟨item, middle, hitem, ?_⟩
        rw [halts_bind_safe fun items => safe_pure _, ih]
        exact ⟨k, Nat.lt_of_succ_lt_succ hk, rest, stop, hrest, hhalts⟩

end Halts

/-! ## The cursor stays near the input -/

/-- The cursor moves at most `slack` past the end of the input. -/
def Within (slack : ℕ) (reader : Reader ε α) : Prop :=
  ∀ input, Effect.Keeps (fun offset => offset ≤ input.length + slack)
    (reader input)

section Within

variable {slack : ℕ}

theorem within_pure (a : α) : Within slack (pure a : Reader ε α) :=
  fun _ => keeps_pure a

theorem within_lift (x : Outcome ε α) : Within slack (lift x) :=
  fun _ => keeps_lift x

variable (error : ε) (condition : Prop)

theorem within_require [Decidable condition] : Within slack (require error condition) := by
  rw [require]
  split
  · exact within_pure ()
  · exact fun _ => keeps_fail error

theorem Within.bind (h : Within slack reader) (hnext : ∀ a, Within slack (next a)) :
    Within slack (reader >>= next) :=
  fun input => (h input).bind fun a => hnext a input

/-- What is read lies inside the input, so the reader after it starts
there. -/
theorem within_take_bind (length : ℕ)
    {next : Bytes → Reader ε β} (h : ∀ octets input offset, offset ≤ input.length →
      ((next octets input).run offset).2 ≤ input.length + slack) :
    Within slack (take error length >>= next) := by
  intro input offset hoffset
  change (((take error length input) >>= fun a =>
    next a input).run offset).2 ≤ _
  rw [run_bind]
  simp only [take]
  split
  · next heq =>
      split at heq
      · next hle =>
          cases heq
          exact h _ input _ hle
      · cases heq
  · next heq =>
      split at heq
      · cases heq
      · cases heq
        exact hoffset
  rename_i heq
  split at heq
  · cases heq
  · cases heq

theorem within_take (length : ℕ) : Within slack (take error length) := by
  have h : Within slack (take error length >>= pure) :=
    within_take_bind error length fun _ _ _ hle => Nat.le_add_right_of_le hle
  rwa [bind_pure] at h

theorem within_byte_bind {next : UInt8 → Reader ε β}
    (h : ∀ value input offset, offset ≤ input.length →
      ((next value input).run offset).2 ≤ input.length + slack) :
    Within slack (byte error >>= next) := by
  rw [byte, bind_assoc]
  exact within_take_bind error 1 fun octets => h (octets.headD 0)

theorem within_times (h : Within slack reader) (count : ℕ) : Within slack (times reader count) := by
  induction count with
  | zero => exact within_pure _
  | succ count ih =>
    exact h.bind fun _ => ih.bind fun _ => within_pure _

/-- The reader never halts and keeps its cursor near the input. -/
structure Tame (slack : ℕ) (reader : Reader ε α) : Prop where
  safe : Safe reader
  within : Within slack reader

theorem tame_pure (a : α) : Tame slack (pure a : Reader ε α) :=
  ⟨safe_pure a, within_pure a⟩

theorem tame_lift {x : Outcome ε α} (h : x ≠ .halt) : Tame slack (lift x) :=
  ⟨safe_lift h, within_lift x⟩

theorem tame_require [Decidable condition] : Tame slack (require error condition) :=
  ⟨safe_require error condition, within_require error condition⟩

theorem tame_take (length : ℕ) : Tame slack (take error length) :=
  ⟨safe_take error length, within_take error length⟩

theorem Tame.bind
    (h : Tame slack reader) (hnext : ∀ a, Tame slack (next a)) : Tame slack (reader >>= next) :=
  ⟨h.safe.bind fun a => (hnext a).safe, h.within.bind fun a => (hnext a).within⟩

theorem tame_byte : Tame slack (byte error) :=
  (tame_take error 1).bind fun _ => tame_pure _

theorem tame_word (width : ℕ) : Tame slack (word error width) :=
  (tame_take error width).bind fun _ => tame_pure _

end Within

end Reader

namespace Writer

/-- Append, unless the buffer would grow past `capacity`. -/
def put (error : ε) (capacity : ℕ) (octets : Bytes) : Writer ε Unit where
  run written :=
    if written.length + octets.length ≤ capacity then
      (.done (), written ++ octets)
    else
      (.fail error, written)

/-- Wherever there is room for them, the writer appends `octets`. -/
def Emits (capacity : ℕ) (writer : Writer ε Unit) (octets : Bytes) : Prop :=
  ∀ written : Bytes, written.length + octets.length ≤ capacity →
    writer.run written = (.done (), written ++ octets)

variable {capacity : ℕ}

theorem emits_pure : Emits capacity (pure () : Writer ε Unit) [] := by
  intro written _
  simp

theorem emits_put (error : ε) (octets : Bytes) :
    Emits capacity (put error capacity octets) octets := by
  intro written h
  simp [put, h]

variable {octets : Bytes}

theorem Emits.bind {writer next : Writer ε Unit} {others : Bytes}
    (h : Emits capacity writer octets) (hnext : Emits capacity next others) :
    Emits capacity (writer >>= fun _ => next) (octets ++ others) := by
  intro written hroom
  rw [length_append] at hroom
  rw [run_bind, h written (by omega)]
  simp only
  rw [hnext _ (by rw [length_append]; omega), append_assoc]

variable {items : List α} {writer : α → Writer ε Unit}

theorem emits_forM {encode : α → Bytes} (h : ∀ a ∈ items, Emits capacity (writer a) (encode a)) :
    Emits capacity (items.forM writer) (items.flatMap encode) := by
  induction items with
  | nil => exact emits_pure
  | cons a items ih =>
    exact (h a mem_cons_self).bind (ih fun b hb => h b (mem_cons_of_mem a hb))

/-- A loop that returned ran every one of its rounds to its return. -/
theorem forM_done
    {written after : Bytes} (h : (items.forM writer).run written = (.done (), after)) :
    ∀ a ∈ items, ∃ start stop, (writer a).run start = (.done (), stop) := by
  induction items generalizing written with
  | nil => simp
  | cons a items ih =>
    obtain ⟨_, middle, hfirst, hrest⟩ := run_bind_eq_done.mp h
    intro b hb
    rcases mem_cons.mp hb with rfl | hb
    · exact ⟨written, middle, hfirst⟩
    · exact ih hrest b hb

end Writer

end ExpOS
