import ExpOS.Core.Blob

/-!
# What a chunked blob stands for

A blob whose chunks reach up to its length behaves as one byte string.  A
write resizes the chunks to its own end; when that lies in an earlier chunk
than the last byte, the chunks above it are gone while the length stays, and
the next access to them halts.  Writes that end in the last chunk or beyond
are exactly the ones that keep a blob a byte string.
-/

namespace ExpOS

open List

open Blocks

/-! ## Byte strings as content -/

namespace Content

/-- Copy from `offset` on into `output`, clipped at the end. -/
def read (content : Bytes) (offset : ℕ) (output : Bytes) : ℕ × Bytes :=
  let count := min output.length (content.length - offset)
  (count, splice output 0 ((content.drop offset).take count))

/-- Overwrite from `offset` on, extending with zeros where needed. -/
def write (content : Bytes) (offset : ℕ) (bytes : Bytes) : Bytes :=
  splice
    (content ++ List.replicate (offset + bytes.length - content.length) 0)
    offset bytes

end Content

namespace ChunkedBlob

/-- The bytes of the chunks up to the length. -/
def content (blob : ChunkedBlob) : Bytes :=
  (flat blob.chunks).take blob.len

/-- The chunks reach up to the length. -/
def Covers (blob : ChunkedBlob) : Prop :=
  blob.len ≤ blob.chunks.length * blobChunkBytes

instance (blob : ChunkedBlob) : Decidable blob.Covers :=
  inferInstanceAs (Decidable (_ ≤ _))

variable {blob : ChunkedBlob}

theorem Covers.length_content (h : blob.Covers) : blob.content.length = blob.len := by
  rw [content, length_take, length_flat]
  exact Nat.min_eq_left h

/-- A blob that covers its length has exactly the chunks it needs. -/
theorem Covers.length_chunks (h : blob.Covers) :
    blob.chunks.length = divCeil blob.len blobChunkBytes := by
  have htight := blob.tight
  have hcovers : blob.len ≤ blob.chunks.length * blobChunkBytes := h
  simp only [divCeil, blobChunkBytes] at htight hcovers ⊢
  omega

/-- The chunks hold the content and then zeros. -/
theorem flat_chunks (blob : ChunkedBlob) : flat blob.chunks = blob.content ++ List.replicate
      (blob.chunks.length * blobChunkBytes - blob.len) 0 := by
  have hrest : (flat blob.chunks).drop blob.len = List.replicate
      (blob.chunks.length * blobChunkBytes - blob.len) 0 := by
    apply eq_replicate_iff.mpr
    refine ⟨by rw [length_drop, length_flat], ?_⟩
    intro b hb
    obtain ⟨i, hi⟩ := mem_iff_getElem?.mp hb
    rw [List.getElem?_drop] at hi
    exact blob.padded _ b (Nat.le_add_right _ _) hi
  rw [content, ← hrest, take_append_drop]

/-- The content determines a blob that covers its length. -/
theorem Covers.eq_of_content_eq {a b : ChunkedBlob} (ha : a.Covers)
    (hb : b.Covers) (h : a.content = b.content) : a = b := by
  have hlen : a.len = b.len := by
    rw [← ha.length_content, ← hb.length_content, h]
  have hchunks : a.chunks.length = b.chunks.length := by
    rw [ha.length_chunks, hb.length_chunks, hlen]
  have hflat : a.chunks = b.chunks := by
    apply flat_injective hchunks
    rw [flat_chunks, flat_chunks, h, hchunks, hlen]
  cases a
  cases b
  simp_all

theorem covers_replace (blob : ChunkedBlob) (bytes : Bytes) : (blob.replace bytes).Covers := by
  have hchunks : (blob.replace bytes).chunks.length = divCeil bytes.length blobChunkBytes := by
    simp [replace, replacedChunks_eq]
  have hlen : (blob.replace bytes).len = bytes.length := rfl
  rw [Covers, hchunks]
  simp only [divCeil, blobChunkBytes]
  omega

theorem content_replace (blob : ChunkedBlob) (bytes : Bytes) :
    (blob.replace bytes).content = bytes := by
  simp only [content, replace, flat_replacedChunks, take_left']

/-- Rebuilding a blob from its content gives the blob back. -/
theorem Covers.fromBytes_content (h : blob.Covers) : fromBytes blob.content = blob :=
  (covers_replace new _).eq_of_content_eq h (content_replace new _)

/-! ## Reading -/

variable {ε : Type}

theorem Covers.read_eq (h : blob.Covers) (offset : ℕ) (output : Bytes) :
    blob.read (ε := ε) offset output = .done (Content.read blob.content offset output) := by
  rw [read, Content.read, h.length_content]
  by_cases hnone : blob.len ≤ offset ∨ output = []
  · have hcount : min output.length (blob.len - offset) = 0 := by
      rcases hnone with hle | hnil
      · omega
      · simp [hnil]
    simp [hnone, hcount]
  · rw [if_neg hnone]
    have hcovers : blob.len ≤ blob.chunks.length * blobChunkBytes := h
    have hrange : offset + min output.length (blob.len - offset) ≤
        blob.chunks.length * blobChunkBytes := by omega
    simp only [readLoop_eq (n := blobChunkBytes) (by decide) hrange
      (Nat.zero_le _) (Nat.sub_le _ _) (Nat.min_le_left _ _)]
    -- The range ends before the length, so cutting there changes nothing.
    have htake : (blob.content.drop offset).take
        (min output.length (blob.len - offset)) = ((flat blob.chunks).drop offset).take
          (min output.length (blob.len - offset)) := by
      rw [content, drop_take, take_take]
      congr 1
      omega
    rw [htake, Nat.add_zero, Nat.sub_zero]

theorem Covers.toVec_eq (h : blob.Covers) : blob.toVec (ε := ε) = .done blob.content := by
  rw [toVec, h.read_eq]
  have hlen := h.length_content
  simp only [Content.read, length_replicate, hlen, Nat.sub_zero, Nat.min_self, drop_zero, splice]
  rw [take_of_length_le (Nat.le_of_eq hlen), hlen]
  simp

/-- Reading the whole of a blob that does not cover its length halts. -/
theorem toVec_eq_halt (h : ¬ blob.Covers) : blob.toVec (ε := ε) = .halt := by
  have hshort : blob.chunks.length * blobChunkBytes < blob.len := by
    rw [Covers, Nat.not_le] at h
    exact h
  have hsome : ¬ (blob.len ≤ 0 ∨ List.replicate blob.len (0 : UInt8) = []) := by
    rw [replicate_eq_nil_iff]
    omega
  simp only [toVec, read, if_neg hsome, length_replicate]
  rw [readLoop_eq_none (n := blobChunkBytes) (by decide) (by omega) (by omega)]
  rfl

/-- The blob answers every question as the byte string would. -/
structure Refines (blob : ChunkedBlob) (bytes : Bytes) : Prop where
  len : blob.len = bytes.length
  toVec : blob.toVec (ε := Empty) = .done bytes
  read : ∀ offset output, blob.read (ε := Empty) offset output =
    .done (Content.read bytes offset output)

variable {bytes : Bytes}

theorem refines_iff : blob.Refines bytes ↔ blob.Covers ∧ blob.content = bytes := by
  constructor
  · intro h
    by_cases hcovers : blob.Covers
    · have hvec := h.toVec
      rw [hcovers.toVec_eq] at hvec
      cases hvec
      exact ⟨hcovers, rfl⟩
    · have hvec := h.toVec
      rw [toVec_eq_halt hcovers] at hvec
      cases hvec
  · rintro ⟨hcovers, rfl⟩
    exact ⟨hcovers.length_content.symm, hcovers.toVec_eq, hcovers.read_eq⟩

/-! ## Writing -/

variable {offset : ℕ}

theorem write_eq (blob : ChunkedBlob) (hfits : offset + bytes.length < 2 ^ 64) :
    ∃ written, blob.write offset bytes = .done written ∧
      written.len = max blob.len (offset + bytes.length) ∧ written.chunks.length =
        divCeil (offset + bytes.length) blobChunkBytes ∧ flat written.chunks = splice
        (flat (resizeChunks (divCeil (offset + bytes.length) blobChunkBytes) blob.chunks))
        offset bytes := by
  obtain ⟨chunks, hchunks, hlen, hflat⟩ := writtenChunks_eq blob.chunks offset bytes
  rw [write, if_neg (Nat.not_le.mpr hfits)]
  split
  · next hnone =>
      rw [hnone] at hchunks
      cases hchunks
  rename_i chunks' hsome
  obtain rfl : chunks' = chunks := Option.some.inj (hsome.symm.trans hchunks)
  exact ⟨_, rfl, rfl, hlen, hflat⟩

/-- Growing the chunks of a covering blob appends zeros to its content. -/
theorem Covers.flat_resizeChunks (h : blob.Covers)
    {required : ℕ} (hgrow : blob.chunks.length ≤ required) :
    flat (resizeChunks required blob.chunks) = blob.content ++
        List.replicate (required * blobChunkBytes - blob.len) 0 := by
  have hcovers : blob.len ≤ blob.chunks.length * blobChunkBytes := h
  have hle : blob.chunks.length * blobChunkBytes ≤
      required * blobChunkBytes := Nat.mul_le_mul_right _ hgrow
  rw [ExpOS.flat_resizeChunks, take_of_length_le
    (by rw [length_flat]; exact hle), blob.flat_chunks, append_assoc,
    replicate_append_replicate, Nat.sub_mul]
  congr 2
  omega

theorem take_splice {xs ys : Bytes} {start k : ℕ}
    (hk : start + ys.length ≤ k) (hxs : k ≤ xs.length) :
    (splice xs start ys).take k = splice (xs.take k) start ys := by
  apply ext_getElem?
  intro i
  rw [List.getElem?_take, getElem?_splice (by omega),
    getElem?_splice (by rw [length_take]; omega), List.getElem?_take]
  split
  · rfl
  · rw [if_neg (by omega)]

variable {c : Bytes}

/-- A write keeps a blob a byte string exactly when it ends in the last chunk
of the content or beyond. -/
theorem write_refines_iff (h : blob.Refines c) (hfits : offset + bytes.length < 2 ^ 64) :
    (∃ written, blob.write offset bytes = .done written ∧
      written.Refines (Content.write c offset bytes)) ↔ divCeil c.length blobChunkBytes ≤
      divCeil (offset + bytes.length) blobChunkBytes := by
  obtain ⟨hcovers, rfl⟩ := refines_iff.mp h
  obtain ⟨written, hwrite, hlen, hchunks, hflat⟩ := blob.write_eq hfits
  rw [hcovers.length_content]
  constructor
  · rintro ⟨written', hwrite', href⟩
    rw [hwrite] at hwrite'
    cases hwrite'
    have hcovers' : written.len ≤ written.chunks.length * blobChunkBytes := (refines_iff.mp href).1
    rw [hchunks] at hcovers'
    simp only [divCeil, blobChunkBytes] at hcovers' ⊢
    omega
  · intro hreach
    refine ⟨written, hwrite, refines_iff.mpr ⟨?_, ?_⟩⟩
    · rw [Covers, hchunks]
      simp only [divCeil, blobChunkBytes] at hreach ⊢
      omega
    have hroom : max blob.len (offset + bytes.length) ≤
        divCeil (offset + bytes.length) blobChunkBytes * blobChunkBytes := by
      simp only [divCeil, blobChunkBytes] at hreach ⊢
      omega
    have hgrown := hcovers.flat_resizeChunks
      (show blob.chunks.length ≤ divCeil (offset + bytes.length) blobChunkBytes by
        rw [hcovers.length_chunks]
        exact hreach)
    rw [content, hlen, hflat, hgrown, take_splice (by omega) (by
        simp only [length_append, length_replicate, hcovers.length_content]
        omega), Content.write, hcovers.length_content,
      take_append, take_of_length_le (by rw [hcovers.length_content]; omega),
      take_replicate, hcovers.length_content]
    congr 3
    omega

/-! ## Sequences of operations -/

/-- One operation on a blob. -/
inductive Op where
  | fromBytes (bytes : Bytes)
  | replace (bytes : Bytes)
  | write (offset : ℕ) (bytes : Bytes)
  | read (offset : ℕ) (output : Bytes)

namespace Op

/-- The operation on the blob. -/
def apply (blob : ChunkedBlob) : Op → Outcome BlobError ChunkedBlob
  | .fromBytes bytes => .done (ChunkedBlob.fromBytes bytes)
  | .replace bytes => .done (blob.replace bytes)
  | .write offset bytes => blob.write offset bytes
  | .read offset output => do
      let _ ← blob.read offset output
      pure blob

/-- The operation on a byte string. -/
def applyContent (content : Bytes) : Op → Bytes
  | .fromBytes bytes => bytes
  | .replace bytes => bytes
  | .write offset bytes => Content.write content offset bytes
  | .read _ _ => content

/-- The operation stays within the content limit. -/
def Within (limit : ℕ) : Op → Prop
  | .fromBytes bytes => bytes.length ≤ limit
  | .replace bytes => bytes.length ≤ limit
  | .write offset bytes => offset + bytes.length ≤ limit
  | .read _ _ => True

/-- A write ends in the last chunk of the content or beyond. -/
def ReachesLastChunk (content : Bytes) : Op → Prop
  | .write offset bytes => divCeil content.length blobChunkBytes ≤
      divCeil (offset + bytes.length) blobChunkBytes
  | _ => True

/-- One operation keeps a blob a byte string exactly when it reaches the
last chunk. -/
theorem apply_refines_iff {op : Op} (h : blob.Refines c) (hop : op.Within defaultFormBlobQuota) :
    (∃ next, op.apply blob = .done next ∧
      next.Refines (op.applyContent c)) ↔ op.ReachesLastChunk c := by
  cases op with
  | fromBytes bytes =>
    simp only [ReachesLastChunk, iff_true]
    exact ⟨_, rfl, refines_iff.mpr ⟨covers_replace new bytes, content_replace new bytes⟩⟩
  | replace bytes =>
    simp only [ReachesLastChunk, iff_true]
    exact ⟨_, rfl, refines_iff.mpr ⟨covers_replace blob bytes, content_replace blob bytes⟩⟩
  | write offset bytes =>
    refine write_refines_iff h ?_
    have hlimit : offset + bytes.length ≤ 32 * 1024 := hop
    omega
  | read offset output =>
    simp only [ReachesLastChunk, iff_true]
    refine ⟨blob, ?_, h⟩
    rw [apply, (refines_iff.mp h).1.read_eq]
    rfl

end Op

/-- At every point of the sequence the blob answers as the byte string that
went through the same operations. -/
def Behaves : List Op → ChunkedBlob → Bytes → Prop
  | [], blob, c => blob.Refines c
  | op :: ops, blob, c => blob.Refines c ∧
      ∃ next, op.apply blob = .done next ∧ Behaves ops next (op.applyContent c)

/-- Every write of the sequence reaches the last chunk of the content it
finds. -/
def WritesReach : List Op → Bytes → Prop
  | [], _ => True
  | op :: ops, c => op.ReachesLastChunk c ∧
      WritesReach ops (op.applyContent c)

theorem behaves_iff_of_refines {ops : List Op} (h : blob.Refines c)
    (hops : ∀ op ∈ ops, op.Within defaultFormBlobQuota) :
    Behaves ops blob c ↔ WritesReach ops c := by
  induction ops generalizing blob c with
  | nil => simp [Behaves, WritesReach, h]
  | cons op ops ih =>
    have hstep := op.apply_refines_iff h (hops op mem_cons_self)
    have hrest : ∀ o ∈ ops, o.Within defaultFormBlobQuota :=
      fun o ho => hops o (mem_cons_of_mem op ho)
    simp only [Behaves, WritesReach, h, true_and]
    constructor
    · rintro ⟨next, hnext, hbehaves⟩
      have href : next.Refines (op.applyContent c) := by
        cases ops with
        | nil => exact hbehaves
        | cons _ _ => exact hbehaves.1
      exact ⟨hstep.mp ⟨next, hnext, href⟩, (ih href hrest).mp hbehaves⟩
    · rintro ⟨hreach, hreaches⟩
      obtain ⟨next, hnext, href⟩ := hstep.mpr hreach
      exact ⟨next, hnext, (ih href hrest).mpr hreaches⟩

theorem refines_new : new.Refines [] := by
  refine refines_iff.mpr ⟨?_, ?_⟩
  · decide
  · rfl

/-- A sequence of operations within the content limit behaves as one byte
string throughout exactly when each of its writes ends in the last chunk of
the content at that point or beyond. -/
theorem behaves_iff_writesReach {ops : List Op}
    (hops : ∀ op ∈ ops, op.Within defaultFormBlobQuota) : Behaves ops new [] ↔ WritesReach ops [] :=
  behaves_iff_of_refines refines_new hops

/-- Appending and then reading back is such a sequence. -/
theorem append_behaves : (∀ op ∈ [Op.replace [1, 2, 3], .write 3 [4], .read 0 [0, 0]],
      op.Within defaultFormBlobQuota) ∧
    Behaves [.replace [1, 2, 3], .write 3 [4], .read 0 [0, 0]] new [] := by
  have hops : ∀ op ∈ [Op.replace [1, 2, 3], .write 3 [4],
      .read 0 [0, 0]], op.Within defaultFormBlobQuota := by
    simp [Op.Within, defaultFormBlobQuota]
  exact ⟨hops, (behaves_iff_writesReach hops).mpr
    ⟨trivial, show divCeil 3 4096 ≤ divCeil 4 4096 by decide, trivial, trivial⟩⟩

/-- One byte written at the start of a blob of two chunks drops the second
chunk and keeps the length. -/
theorem write_drops_chunk (hbytes : bytes.length = blobChunkBytes + 1) :
    ∃ written, (fromBytes bytes).write 0 [1] = .done written ∧
      written.len = blobChunkBytes + 1 ∧ ¬ written.Covers := by
  obtain ⟨written, hwrite, hlen, hchunks, -⟩ :=
    (fromBytes bytes).write_eq (show 0 + [(1 : UInt8)].length < 2 ^ 64 by decide)
  have hlen' : written.len = blobChunkBytes + 1 := by
    have hold : (fromBytes bytes).len = bytes.length := rfl
    simp only [length_cons, length_nil] at hlen
    omega
  refine ⟨written, hwrite, hlen', ?_⟩
  rw [Covers, hlen', hchunks]
  decide

/-- Two operations within the content limit after which the blob reports its
old length, and reading it halts. -/
theorem write_truncates_chunks : (∀ op ∈ [Op.fromBytes (List.replicate (blobChunkBytes + 1) 7),
      .write 0 [1]], op.Within defaultFormBlobQuota) ∧ ∃ written,
      (fromBytes (List.replicate (blobChunkBytes + 1) 7)).write 0 [1] = .done written ∧
      written.len = blobChunkBytes + 1 ∧ written.toVec (ε := Empty) = .halt := by
  have hbytes : (List.replicate (blobChunkBytes + 1) (7 : UInt8)).length =
      blobChunkBytes + 1 := length_replicate
  generalize List.replicate (blobChunkBytes + 1) (7 : UInt8) = bytes at hbytes ⊢
  refine ⟨?_, ?_⟩
  · simp [Op.Within, hbytes, defaultFormBlobQuota, blobChunkBytes]
  · obtain ⟨written, hwrite, hlen, hcovers⟩ := write_drops_chunk hbytes
    exact ⟨written, hwrite, hlen, toVec_eq_halt hcovers⟩

end ChunkedBlob

end ExpOS
