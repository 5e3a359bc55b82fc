import ExpOS.Support.Blocks
import ExpOS.Support.Outcome

/-!
# Chunked blobs

Form content is kept in chunks of 4 KiB and a length.  The chunks and the
length are private to the component, so every value of the type comes from its
operations; the two facts that all of them keep are fields of the structure.
That the chunks reach up to the length is not among them.
-/

namespace ExpOS

open List

open Blocks

def blobChunkBytes : ℕ := 4096
def defaultFormBlobQuota : ℕ := 32 * 1024

/-- Division rounding up. -/
def divCeil (a b : ℕ) : ℕ := (a + b - 1) / b

inductive BlobError where
  | wrongCfc
  | invalidForm
  | duplicateForm
  | staleRevision
  | formQuotaExceeded
  | cfcQuotaExceeded
  | emptyTransaction
  | lengthOverflow
  | notFound
deriving DecidableEq

/-- Cut a list of chunks, or extend it by zero chunks, to a given number. -/
def resizeChunks (required : ℕ) (chunks : List (ByteBlock blobChunkBytes)) :
    List (ByteBlock blobChunkBytes) :=
  chunks.take required ++ List.replicate (required - chunks.length)
      (ByteBlock.zeros blobChunkBytes)

/-- The chunk that holds the bytes with the given index, zero-filled. -/
def fillChunk (bytes : Bytes) (index : ℕ) : ByteBlock blobChunkBytes :=
  let start := index * blobChunkBytes
  let stop := min (start + blobChunkBytes) bytes.length
  if start < stop then
    ⟨splice (ByteBlock.zeros blobChunkBytes).val 0
      ((bytes.drop start).take (stop - start)), by
      rw [length_splice] <;>
        simp only [(ByteBlock.zeros blobChunkBytes).property, List.length_take, List.length_drop]
      omega⟩
  else
    ByteBlock.zeros blobChunkBytes

variable (required : ℕ) (chunks : List (ByteBlock blobChunkBytes))

theorem length_resizeChunks : (resizeChunks required chunks).length = required := by
  simp only [resizeChunks, length_append, length_take, length_replicate]
  omega

theorem flat_zeros (k : ℕ) : flat (List.replicate k (ByteBlock.zeros blobChunkBytes)) =
      List.replicate (k * blobChunkBytes) 0 := by
  induction k with
  | zero => simp
  | succ k ih =>
    rw [replicate_succ, flat_cons, ih, ByteBlock.zeros,
      replicate_append_replicate, Nat.succ_mul, Nat.add_comm]

theorem flat_take (k : ℕ) : flat (chunks.take k) = (flat chunks).take (k * blobChunkBytes) := by
  have hsplit : flat chunks = flat (chunks.take k) ++ flat (chunks.drop k) := by
    rw [← flat_append, take_append_drop]
  by_cases hk : k ≤ chunks.length
  · rw [hsplit, take_left']
    rw [length_flat, length_take, Nat.min_eq_left hk]
  · rw [take_of_length_le (by omega), take_of_length_le]
    rw [length_flat]
    exact Nat.mul_le_mul_right _ (by omega)

/-- Past the old bytes a resized list of chunks is zero. -/
theorem flat_resizeChunks :
    flat (resizeChunks required chunks) = (flat chunks).take (required * blobChunkBytes) ++
        List.replicate ((required - chunks.length) * blobChunkBytes) 0 := by
  rw [resizeChunks, flat_append, flat_take, flat_zeros]

variable (bytes : Bytes)

theorem fillChunk_eq (index : ℕ) : fillChunk bytes index = Blocks.padded 0 bytes index := by
  apply Subtype.ext
  simp only [fillChunk, Blocks.padded]
  split
  · next hlt =>
      have htake : (bytes.drop (index * blobChunkBytes)).take
          (min (index * blobChunkBytes + blobChunkBytes) bytes.length - index * blobChunkBytes) =
          (bytes.drop (index * blobChunkBytes)).take blobChunkBytes := by
        rw [take_eq_take_iff, length_drop]
        omega
      simp [splice, ByteBlock.zeros, htake]
  rename_i hge
  have hshort : bytes.length ≤ index * blobChunkBytes := by
    simp only [blobChunkBytes] at hge ⊢
    omega
  simp [ByteBlock.zeros, drop_of_length_le hshort]

/-- Content in chunks.  There are never more chunks than the length needs,
and what the chunks hold past the length is zero. -/
structure ChunkedBlob where
  chunks : List (ByteBlock blobChunkBytes)
  len : ℕ
  tight : chunks.length ≤ divCeil len blobChunkBytes
  padded : ∀ i b, len ≤ i → (flat chunks)[i]? = some b → b = 0
deriving DecidableEq

namespace ChunkedBlob

/-! ## Operations -/

def new : ChunkedBlob where
  chunks := []
  len := 0
  tight := Nat.zero_le _
  padded := by simp

/-- The chunks of a replaced blob; the old ones only lend their storage. -/
def replacedChunks (chunks : List (ByteBlock blobChunkBytes))
    (bytes : Bytes) : List (ByteBlock blobChunkBytes) :=
  (resizeChunks (divCeil bytes.length blobChunkBytes) chunks).mapIdx
    (fun index _ => fillChunk bytes index)

variable (chunks : List (ByteBlock blobChunkBytes)) (bytes : Bytes)

theorem replacedChunks_eq :
    replacedChunks chunks bytes = (List.range (divCeil bytes.length blobChunkBytes)).map
        (fillChunk bytes) := by
  rw [replacedChunks]
  apply ext_getElem
  · simp [length_resizeChunks]
  · intro i h₁ h₂
    simp

theorem flat_replacedChunks : flat (replacedChunks chunks bytes) = bytes ++ List.replicate
        (divCeil bytes.length blobChunkBytes * blobChunkBytes - bytes.length) 0 := by
  have hfill : fillChunk bytes = Blocks.padded 0 bytes :=
    funext (fillChunk_eq bytes)
  rw [replacedChunks_eq, hfill, flat_padded, take_of_length_le]
  simp only [divCeil, blobChunkBytes]
  omega

def replace (blob : ChunkedBlob) (bytes : Bytes) : ChunkedBlob where
  chunks := replacedChunks blob.chunks bytes
  len := bytes.length
  tight := by simp [replacedChunks_eq]
  padded := by
    intro i b hi hb
    rw [flat_replacedChunks, List.getElem?_append_right hi] at hb
    exact List.eq_of_mem_replicate (List.mem_of_getElem? hb)

def fromBytes (bytes : Bytes) : ChunkedBlob :=
  new.replace bytes

/-- Copy from `offset` on into `output`; the count and the new output. -/
def read {ε : Type} (blob : ChunkedBlob) (offset : ℕ) (output : Bytes) : Outcome ε (ℕ × Bytes) :=
  if blob.len ≤ offset ∨ output = [] then .done (0, output)
  else
    let count := min output.length (blob.len - offset)
    match readLoop blob.chunks offset count count 0 output with
    | none => .halt
    | some output => .done (count, output)

def toVec {ε : Type} (blob : ChunkedBlob) : Outcome ε Bytes := do
  let (_, bytes) ← blob.read 0 (List.replicate blob.len 0)
  pure bytes

/-- The chunks after the bytes were copied into the resized list. -/
def writtenChunks (chunks : List (ByteBlock blobChunkBytes)) (offset : ℕ) (bytes : Bytes) :
    Option (List (ByteBlock blobChunkBytes)) :=
  writeLoop offset bytes bytes.length 0
    (resizeChunks (divCeil (offset + bytes.length) blobChunkBytes) chunks)

/-- The list was resized to hold the end of the write, so the walk over
it finds every chunk. -/
theorem writtenChunks_eq (offset : ℕ) (bytes : Bytes) :
    ∃ written, writtenChunks chunks offset bytes = some written ∧
      written.length = divCeil (offset + bytes.length) blobChunkBytes ∧ flat written = splice
        (flat (resizeChunks (divCeil (offset + bytes.length) blobChunkBytes) chunks))
        offset bytes := by
  obtain ⟨written, hwrite, hlen, hflat⟩ := writeLoop_eq (n := blobChunkBytes) (by decide)
      (show offset + bytes.length ≤ (resizeChunks (divCeil (offset + bytes.length) blobChunkBytes)
          chunks).length * blobChunkBytes by
        rw [length_resizeChunks]
        simp only [divCeil, blobChunkBytes]
        omega)
      (Nat.zero_le _) (Nat.sub_le _ _)
  refine ⟨written, hwrite, ?_, ?_⟩
  · rw [hlen, length_resizeChunks]
  · simpa using hflat

variable {offset : ℕ} {bytes : Bytes} {written : List (ByteBlock blobChunkBytes)}

theorem padded_writtenChunks (blob : ChunkedBlob)
    (h : writtenChunks blob.chunks offset bytes = some written) :
    ∀ i b, max blob.len (offset + bytes.length) ≤ i → (flat written)[i]? = some b → b = 0 := by
  obtain ⟨written', hwritten, -, hflat⟩ := writtenChunks_eq blob.chunks offset bytes
  obtain rfl : written = written' := Option.some.inj (h.symm.trans hwritten)
  intro i b hi hb
  have hroom : offset + bytes.length ≤ (flat (resizeChunks (divCeil (offset + bytes.length)
        blobChunkBytes) blob.chunks)).length := by
    rw [length_flat, length_resizeChunks]
    simp only [divCeil, blobChunkBytes]
    omega
  rw [hflat, getElem?_splice hroom, if_neg (by omega),
    flat_resizeChunks, List.getElem?_append] at hb
  split at hb
  · rw [List.getElem?_take] at hb
    split at hb
    · exact blob.padded i b (by omega) hb
    · cases hb
  · exact eq_of_mem_replicate (mem_of_getElem? hb)

theorem tight_writtenChunks (blob : ChunkedBlob)
    (h : writtenChunks blob.chunks offset bytes = some written) : written.length ≤
      divCeil (max blob.len (offset + bytes.length)) blobChunkBytes := by
  obtain ⟨written', hwritten, hlen, -⟩ := writtenChunks_eq blob.chunks offset bytes
  obtain rfl : written = written' := Option.some.inj (h.symm.trans hwritten)
  rw [hlen]
  simp only [divCeil, blobChunkBytes]
  omega

/-- Overwrite from `offset` on.  The list of chunks is resized to the end of
the write, also when that is below the present length. -/
def write (blob : ChunkedBlob) (offset : ℕ) (bytes : Bytes) : Outcome BlobError ChunkedBlob :=
  -- `checked_add` on 64-bit machine words
  if 2 ^ 64 ≤ offset + bytes.length then .fail .lengthOverflow
  else
    match h : writtenChunks blob.chunks offset bytes with
    | none => .halt
    | some chunks =>
      .done
        { chunks
          len := max blob.len (offset + bytes.length)
          tight := tight_writtenChunks blob h
          padded := padded_writtenChunks blob h }

end ChunkedBlob

end ExpOS
