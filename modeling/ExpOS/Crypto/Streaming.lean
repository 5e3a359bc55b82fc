import ExpOS.Crypto.Primitives

/-!
# The digest of a stream of chunks

A running digest keeps the words after the whole blocks it has seen and the
octets of the block it has begun.  What it has absorbed determines these
data, and they determine its result, so a stream has one digest however it is
cut into chunks.
-/

namespace ExpOS

open List

open Blocks

namespace Sha256

/-- Compressing whole blocks off an input leads to these words and leaves
this rest. -/
inductive Compresses : HashWords → Bytes → HashWords → Bytes → Prop
  | stop {state : HashWords} {rest : Bytes} (h : rest.length < 64) :
      Compresses state rest state rest
  | block {state final : HashWords} {input rest : Bytes}
      (first : ByteBlock 64)
      (h : Compresses (state.compress first) input final rest) :
      Compresses state (first.val ++ input) final rest

namespace Compresses

variable {state middle final : HashWords}
variable {input more rest rest' : Bytes}

theorem rest_lt (h : Compresses state input final rest) : rest.length < 64 := by
  induction h with
  | stop h => exact h
  | block first _ ih => exact ih

/-- The rest of one input is the beginning of the next one. -/
theorem append (h : Compresses state input middle rest)
    (hmore : Compresses middle (rest ++ more) final rest') :
    Compresses state (input ++ more) final rest' := by
  induction h with
  | stop _ => exact hmore
  | block first _ ih =>
    rw [append_assoc]
    exact .block first (ih hmore)

end Compresses

theorem compresses_compressBlocks {fuel : ℕ} {state : HashWords}
    {input : Bytes} (h : input.length < 64 * (fuel + 1)) :
    Compresses state input (compressBlocks fuel state input).1
      (compressBlocks fuel state input).2 := by
  induction fuel generalizing state input with
  | zero => exact .stop (by omega)
  | succ fuel ih =>
    rw [compressBlocks]
    split
    · rename_i hlong
      have hnext := @ih (state.compress ⟨input.take 64, by
        rw [length_take]; omega⟩) (input.drop 64)
        (by rw [length_drop]; omega)
      have hstep := Compresses.block _ hnext
      rwa [take_append_drop] at hstep
    · rename_i hshort
      exact .stop (by omega)

/-- The buffer of the digest begins with these octets and no more of it
counts. -/
def Buffers (digest : Sha256) (rest : Bytes) : Prop :=
  digest.buffered = rest.length ∧ digest.buffer.val.take rest.length = rest

/-- The digest has absorbed exactly these octets. -/
def Absorbed (digest : Sha256) (input : Bytes) : Prop :=
  digest.totalLen = UInt64.ofNat input.length ∧
    ∃ rest, Compresses sha256Initial input digest.state rest ∧ digest.Buffers rest

theorem absorbed_new : Absorbed new [] :=
  ⟨rfl, [], .stop (by decide), rfl, rfl⟩

variable {buffer : ByteBlock 64}

/-- Filling a buffer behind the octets that count. -/
theorem take_fill {piece : Bytes}
    (hrest : buffer.val.take rest.length = rest) (hfits : rest.length + piece.length ≤ 64) :
    (fill buffer rest.length piece hfits).val.take (rest ++ piece).length = rest ++ piece := by
  change (buffer.val.take rest.length ++ piece ++ _).take _ = _
  rw [hrest]
  exact take_left

variable {digest : Sha256} {input rest more : Bytes}

/-- The last part of an update, from a digest whose buffer is empty or that
gets no more octets. -/
theorem absorbed_absorb (hlength : digest.totalLen = UInt64.ofNat (input ++ more).length)
    (h : Compresses sha256Initial input digest.state rest)
    (hrest : digest.Buffers rest) (hready : rest = [] ∨ more = []) :
    Absorbed (digest.absorb more) (input ++ more) := by
  have hcompress := @compresses_compressBlocks more.length digest.state more (by omega)
  rw [absorb]
  split
  · rename_i hnone
    refine ⟨hlength, rest, ?_, hrest⟩
    rcases hready with rfl | rfl
    · rw [hnone] at hcompress
      exact h.append hcompress
    · rw [append_nil]
      exact h
  · rename_i hsome
    have hempty : rest = [] := by
      apply hready.resolve_right
      rintro rfl
      exact hsome rfl
    subst hempty
    refine ⟨hlength, _, h.append hcompress, rfl, ?_⟩
    have hlt := hcompress.rest_lt
    exact @take_fill digest.buffer [] _ rfl (by simpa using hlt.le)

theorem Absorbed.update (h : Absorbed digest input) (more : Bytes) :
    Absorbed (digest.update more) (input ++ more) := by
  obtain ⟨state, buffer, buffered, totalLen, hlt⟩ := digest
  obtain ⟨htotal, rest, hcompressed, hbuffered, htake⟩ := h
  simp only at htotal hcompressed hbuffered htake
  subst hbuffered
  have hlength : totalLen + UInt64.ofNat more.length = UInt64.ofNat (input ++ more).length := by
    rw [htotal, length_append, UInt64.ofNat_add]
  rw [Sha256.update]
  split
  · rename_i hempty
    exact absorbed_absorb hlength hcompressed ⟨rfl, htake⟩ (.inl (length_eq_zero_iff.mp hempty))
  -- The octets that go to the buffer first, and what then follows.
  obtain ⟨first, later, hmore, hfirst⟩ : ∃ first later, more = first ++ later ∧
        first = more.take (min (64 - rest.length) more.length) :=
    ⟨_, _, (take_append_drop _ more).symm, rfl⟩
  have hcount : first.length = min (64 - rest.length) more.length := by
    rw [hfirst, length_take]
    omega
  have hlater : more.drop (min (64 - rest.length) more.length) = later := by
    rw [← hcount]
    conv_lhs => rw [hmore]
    exact drop_left
  have hfits : rest.length + first.length ≤ 64 := by omega
  have hfill := take_fill htake hfits
  simp only [← hfirst, hlater]
  have hinput : input ++ more = input ++ first ++ later := by
    rw [hmore, append_assoc]
  rw [hinput] at hlength ⊢
  split
  · rename_i hfull
    apply absorbed_absorb hlength _ ⟨rfl, rfl⟩ (.inl rfl)
    have hblock : (fill buffer rest.length first hfits).val = rest ++ first := by
      rw [← hfill]
      apply (take_of_length_le _).symm
      rw [(fill buffer rest.length first hfits).property, length_append]
      omega
    apply hcompressed.append
    rw [← hblock, ← append_nil (fill buffer rest.length first hfits).val]
    exact .block _ (.stop (by decide))
  · rename_i hpartial
    have hnone : later = [] := by
      rw [← hlater]
      apply drop_eq_nil_of_le
      omega
    have hshort : (rest ++ first).length < 64 := by
      rw [length_append]
      omega
    apply absorbed_absorb hlength (hcompressed.append (.stop hshort)) ⟨?_, hfill⟩ (.inr hnone)
    rw [length_append, hcount]

/-! ## The result -/

/-- Two adjoining pieces are one. -/
theorem fill_fill {start next : ℕ}
    {piece later : Bytes} (hnext : next = start + piece.length) (hfits : start + piece.length ≤ 64)
    (hlater : next + later.length ≤ 64) (hboth : start + (piece ++ later).length ≤ 64) :
    fill (fill buffer start piece hfits) next later hlater =
      fill buffer start (piece ++ later) hboth := by
  subst hnext
  apply Subtype.ext
  apply splice_splice
  rw [buffer.property]
  exact hlater

theorem Absorbed.foldl (h : Absorbed digest input) (chunks : List Bytes) :
    Absorbed (chunks.foldl Sha256.update digest) (input ++ chunks.flatten) := by
  induction chunks generalizing digest input with
  | nil =>
    rw [flatten_nil, append_nil]
    exact h
  | cons chunk chunks ih =>
    rw [flatten_cons, ← append_assoc]
    exact ih (h.update chunk)

end Sha256

/-- The digest of a byte string. -/
def sha256 (input : Bytes) : ByteBlock 32 :=
  (Sha256.new.update input).finalize

end ExpOS
