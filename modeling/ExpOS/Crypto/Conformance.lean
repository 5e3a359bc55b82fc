import ExpOS.Crypto.Standard
import ExpOS.Crypto.Streaming

/-!
# The kernel's digest is the published one

The streaming digest, cut into any chunks, is the digest of the whole message;
so are the keyed digest and the password hash made from it.
-/

namespace ExpOS

open List Bits Sha256

/-! ## Words -/

namespace HashWords

/-- The words as the published digest numbers them. -/
def toVector (w : HashWords) : Sha2.Hash :=
  #v[w.a.toBitVec, w.b.toBitVec, w.c.toBitVec, w.d.toBitVec, w.e.toBitVec, w.f.toBitVec,
    w.g.toBitVec, w.h.toBitVec]

theorem toBitVec_rotateRight {count : UInt32} (x : UInt32) (hpos : 0 < count.toNat)
    (hlt : count.toNat < 32) :
    (rotateRight x count).toBitVec = x.toBitVec.rotateRight count.toNat := by
  have hright : (count.toBitVec % 32).toNat = count.toNat := by
    exact Nat.mod_eq_of_lt hlt
  have hleft : ((32 - count).toBitVec % 32).toNat = 32 - count.toNat := by
    have hsub : (32 - count).toNat = 32 - count.toNat :=
      UInt32.toNat_sub_of_le _ _ (UInt32.le_iff_toNat_le.mpr hlt.le)
    rw [BitVec.toNat_umod, UInt32.toNat_toBitVec, hsub]
    exact Nat.mod_eq_of_lt (Nat.sub_lt (by decide) hpos)
  rw [rotateRight, UInt32.toBitVec_or, UInt32.toBitVec_shiftRight, UInt32.toBitVec_shiftLeft,
    BitVec.rotateRight_def, Nat.mod_eq_of_lt hlt, BitVec.ushiftRight_eq', BitVec.shiftLeft_eq',
    hright, hleft]

theorem toVector_round (w : HashWords) (k scheduled : UInt32) :
    (w.round k scheduled).toVector = Sha2.round w.toVector k.toBitVec scheduled.toBitVec := by
  simp [toVector, round, Sha2.round, Sha2.bigSigma0, Sha2.bigSigma1, Sha2.ch, Sha2.maj,
    toBitVec_rotateRight]

/-! ## The schedule -/

/-- The words of a block. -/
def blockWords (block : Bytes) (t : Fin 16) : Sha2.Word :=
  BitVec.ofNat 32 (Bytes.fromBeBytes ((block.drop (t * 4)).take 4))

/-- The next word of a schedule. -/
theorem scheduleWord_of_le (m : Fin 16 → Sha2.Word) {t : ℕ} (h : 16 ≤ t) :
    Sha2.scheduleWord m t =
      Sha2.scheduleWord m (t - 16) + Sha2.smallSigma0 (Sha2.scheduleWord m (t - 15)) +
        Sha2.scheduleWord m (t - 7) + Sha2.smallSigma1 (Sha2.scheduleWord m (t - 2)) := by
  rw [Sha2.scheduleWord, dif_neg (Nat.not_lt.mpr h)]
  ac_rfl

/-- A schedule that is right so far stays so when it is extended. -/
theorem map_extendSchedule {m : Fin 16 → Sha2.Word} {count : ℕ} {schedule : List UInt32}
    (hlength : 16 ≤ schedule.length)
    (h : schedule.map UInt32.toBitVec = (List.range schedule.length).map (Sha2.scheduleWord m)) :
    (extendSchedule count schedule).map UInt32.toBitVec =
      (List.range (schedule.length + count)).map (Sha2.scheduleWord m) := by
  induction count generalizing schedule with
  | zero => exact h
  | succ count ih =>
    have hget : ∀ t < schedule.length, (schedule.getD t 0).toBitVec = Sha2.scheduleWord m t := by
      intro t ht
      have hword := congrArg (·[t]?) h
      simp only [getElem?_map, getElem?_range ht, Option.map_some] at hword
      rw [getElem?_eq_getElem ht, Option.map_some, Option.some.injEq] at hword
      rw [getD_eq_getElem _ _ ht, hword]
    rw [extendSchedule, ih]
    · rw [length_append, Nat.add_right_comm]
      rfl
    · rw [length_append]
      omega
    · rw [map_append, h, length_append, length_singleton, range_succ, map_append, map_singleton,
        map_singleton, scheduleWord_of_le m hlength, ← hget _ (by omega), ← hget _ (by omega),
        ← hget _ (by omega), ← hget _ (by omega)]
      simp [Sha2.smallSigma0, Sha2.smallSigma1, toBitVec_rotateRight]

theorem map_schedule (block : ByteBlock 64) :
    (schedule block).map UInt32.toBitVec =
      (List.range 64).map (Sha2.scheduleWord (blockWords block.val)) := by
  apply map_extendSchedule (by simp)
  rw [map_map, length_map]
  apply map_congr_left
  intro t ht
  rw [Sha2.scheduleWord, dif_pos (mem_range.mp ht)]
  rfl

/-! ## Compression -/

theorem toVector_rounds (entries : List (UInt32 × UInt32)) (w : HashWords) :
    (entries.foldl (fun w entry => w.round entry.1 entry.2) w).toVector =
      (entries.map (Prod.map UInt32.toBitVec UInt32.toBitVec)).foldl
        (fun v entry => Sha2.round v entry.1 entry.2) w.toVector := by
  induction entries generalizing w with
  | nil => rfl
  | cons entry entries ih => rw [foldl_cons, ih, toVector_round, map_cons, foldl_cons]; rfl

theorem sha256K_eq :
    sha256K.map UInt32.toBitVec = (List.range 64).map Sha2.roundConstant := by
  decide +kernel

/-- The words of a sum. -/
theorem toVector_sum (state w : HashWords) :
    toVector
      { a := state.a + w.a, b := state.b + w.b, c := state.c + w.c, d := state.d + w.d
        e := state.e + w.e, f := state.f + w.f, g := state.g + w.g, h := state.h + w.h } =
      Vector.zipWith (· + ·) w.toVector state.toVector := by
  simp [toVector, BitVec.add_comm]

theorem toVector_compress (state : HashWords) (block : ByteBlock 64) :
    (state.compress block).toVector = Sha2.compress state.toVector (blockWords block.val) := by
  have hrounds : ((sha256K.zip (schedule block)).foldl
      (fun w entry => w.round entry.1 entry.2) state).toVector =
      (List.range 64).foldl (fun v t => Sha2.round v (Sha2.roundConstant t)
        (Sha2.scheduleWord (blockWords block.val) t)) state.toVector := by
    rw [toVector_rounds, ← zip_map, sha256K_eq, map_schedule, zip_map', foldl_map]
  rw [compress, toVector_sum, hrounds, Sha2.compress]

theorem toVector_sha256Initial : sha256Initial.toVector = Sha2.initialHash := by
  decide +kernel

end HashWords

/-! ## Blocks -/

/-- The words of a block that stands inside a message. -/
theorem blockWord_append {front block rest : Bytes} {i : ℕ} (hfront : front.length = 64 * i)
    (hblock : block.length = 64) :
    Sha2.blockWord (Bits.ofBytes (front ++ (block ++ rest))) i = HashWords.blockWords block := by
  funext t
  have hplace : 512 * i + 32 * t = 8 * (front.length + t * 4) := by omega
  have hinside : ((block ++ rest).drop (t * 4)).take 4 = (block.drop (t * 4)).take 4 := by
    rw [drop_append_of_le_length (by omega), take_append_of_le_length]
    rw [length_drop]
    omega
  rw [Sha2.blockWord, HashWords.blockWords, hplace, drop_ofBytes]
  have htake := take_ofBytes ((front ++ (block ++ rest)).drop (front.length + t * 4)) 4
  rw [htake, toNat_ofBytes, drop_append, drop_eq_nil_of_le (by omega), nil_append,
    Nat.add_sub_cancel_left, hinside]

/-- Compressing whole blocks follows the published chain. -/
theorem Sha256.Compresses.chain {state final : HashWords} {input rest : Bytes}
    (h : Sha256.Compresses state input final rest) (hrest : rest = []) {front : Bytes} {i : ℕ}
    (hfront : front.length = 64 * i)
    (hstate : state.toVector = Sha2.chain (Bits.ofBytes (front ++ input)) i) :
    final.toVector = Sha2.chain (Bits.ofBytes (front ++ input)) (i + input.length / 64) := by
  induction h generalizing front i with
  | stop _ =>
    subst hrest
    exact hstate
  | @block state final input rest first _ ih =>
    have hlength : (front ++ first.val).length = 64 * (i + 1) := by
      rw [length_append, first.property, hfront]
      ring
    have hcount : i + (first.val ++ input).length / 64 = i + 1 + input.length / 64 := by
      rw [length_append, first.property]
      omega
    rw [hcount, ← append_assoc]
    apply ih hrest hlength
    rw [HashWords.toVector_compress, hstate, append_assoc, Sha2.chain,
      blockWord_append hfront first.property]

/-! ## Padding -/

/-- What is put behind a message of a length. -/
def padding (length : ℕ) : Bytes :=
  0x80 :: replicate ((119 - length % 64) % 64) 0 ++
    Bytes.toBeBytes 8 (UInt64.ofNat length * 8).toNat

theorem ofBytes_padding (message : Bytes) :
    Bits.ofBytes (message ++ padding message.length) = Sha2.pad (Bits.ofBytes message) := by
  have hmark : ofNat 8 (0x80 : UInt8).toNat = true :: replicate 7 false := by decide
  have hzeros : Sha2.zeroCount (ofBytes message).length =
      7 + 8 * ((119 - message.length % 64) % 64) := by
    rw [Sha2.zeroCount, length_ofBytes]
    omega
  have hlength : ofNat 64 (UInt64.ofNat message.length * 8).toNat =
      ofNat 64 (8 * message.length) := by
    rw [← ofNat_mod 64 (8 * message.length), UInt64.toNat_mul, UInt64.toNat_ofNat',
      Nat.mod_mul_mod, Nat.mul_comm]
    rfl
  rw [padding, Sha2.pad, hzeros, ofBytes_append, ofBytes_append, ofBytes_cons,
    ofBytes_zeros, ofBytes_toBeBytes, hmark, hlength, length_ofBytes, replicate_add]
  simp

namespace Sha256

variable {digest : Sha256} {input rest : Bytes}

/-- What is left over is the end of the last block begun. -/
theorem Compresses.length_rest {state final : HashWords} (h : Compresses state input final rest) :
    rest.length = input.length % 64 := by
  induction h with
  | stop hshort => exact (Nat.mod_eq_of_lt hshort).symm
  | block first _ ih => rw [ih, length_append, first.property, Nat.add_mod_left]

/-- A buffer filled to its end. -/
theorem val_fill {buffer : ByteBlock 64} {start : ℕ} {piece : Bytes}
    (htake : buffer.val.take start = rest) (hfull : start + piece.length = 64) :
    (fill buffer start piece hfull.le).val = rest ++ piece := by
  change buffer.val.take start ++ piece ++ buffer.val.drop (start + piece.length) = _
  rw [htake, hfull, drop_of_length_le buffer.property.le, append_nil]

/-- The end of a digest compresses the padding behind the message. -/
theorem Absorbed.padded (h : Absorbed digest input) :
    ∃ final, Compresses sha256Initial (input ++ padding input.length) final [] ∧
      digest.finalize = final.toBytes := by
  obtain ⟨htotal, rest, hcompressed, hbuffered, htake⟩ := h
  have hlength := hcompressed.length_rest
  obtain ⟨state, buffer, buffered, totalLen, hbound⟩ := digest
  dsimp only at htotal hcompressed hbuffered htake
  subst hbuffered
  have hbits := Bytes.length_toBeBytes 8 (totalLen * 8).toNat
  have hmark : rest.length + 1 = rest.length + ([0x80] : Bytes).length := rfl
  by_cases hlong : 56 < rest.length + 1
  · -- the length does not fit behind the mark
    have hzeros : (119 - input.length % 64) % 64 = 64 - (rest.length + 1) + 56 := by omega
    have hfull : rest.length + ([0x80] ++ replicate (64 - (rest.length + 1)) 0 : Bytes).length =
        64 := by
      rw [length_append, length_replicate]
      omega
    have hlast : 56 + (Bytes.toBeBytes 8 (totalLen * 8).toNat).length = 64 := by rw [hbits]
    let full := fill buffer rest.length ([0x80] ++ replicate (64 - (rest.length + 1)) 0) hfull.le
    let last := fill (.zeros 64) 56 (Bytes.toBeBytes 8 (totalLen * 8).toNat) hlast.le
    have hpadding : rest ++ padding input.length = full.val ++ (last.val ++ []) := by
      rw [val_fill htake hfull, @val_fill (replicate 56 0) _ _ _ rfl hlast, padding, htotal, hzeros,
        replicate_add]
      simp
    have hrun : Compresses state (rest ++ padding input.length)
        ((state.compress full).compress last) [] := by
      rw [hpadding]
      exact .block _ (.block _ (.stop (by decide)))
    refine ⟨_, hcompressed.append hrun, ?_⟩
    rw [finalize, dif_pos hlong]
    rw [fill_fill hmark _ _ hfull.le]
  · have hzeros : (119 - input.length % 64) % 64 = 56 - (rest.length + 1) := by omega
    have hmiddle : 56 = rest.length +
        ([0x80] ++ replicate (56 - (rest.length + 1)) 0 : Bytes).length := by
      rw [length_append, length_replicate]
      omega
    have hfull : rest.length + ([0x80] ++ replicate (56 - (rest.length + 1)) 0 ++
        Bytes.toBeBytes 8 (totalLen * 8).toNat : Bytes).length = 64 := by
      rw [length_append]
      omega
    let last := fill buffer rest.length ([0x80] ++ replicate (56 - (rest.length + 1)) 0 ++
      Bytes.toBeBytes 8 (totalLen * 8).toNat) hfull.le
    have hpadding : rest ++ padding input.length = last.val ++ [] := by
      rw [val_fill htake hfull, padding, htotal, hzeros]
      simp
    have hrun : Compresses state (rest ++ padding input.length) (state.compress last) [] := by
      rw [hpadding]
      exact .block _ (.stop (by decide))
    refine ⟨_, hcompressed.append hrun, ?_⟩
    rw [finalize, dif_neg hlong]
    dsimp only
    rw [fill_fill hmark _ _ (by omega), fill_fill hmiddle _ _ hfull.le]

/-- A digest that has absorbed a message gives the published digest of it. -/
theorem Absorbed.finalize_eq_standard (h : Absorbed digest input) :
    digest.finalize.val = Sha2.sha256 input := by
  obtain ⟨final, hcompresses, hfinal⟩ := h.padded
  have hchain := @Compresses.chain _ _ _ _ hcompresses rfl [] 0 rfl HashWords.toVector_sha256Initial
  have hblocks : (Sha2.pad (ofBytes input)).length / 512 =
      (input ++ padding input.length).length / 64 := by
    rw [← ofBytes_padding, length_ofBytes]
    omega
  rw [nil_append, Nat.zero_add, ofBytes_padding, ← hblocks] at hchain
  have hbits : Sha2.digest (ofBytes input) = ofBytes final.toBytes.val := by
    rw [Sha2.digest, ← hchain]
    simp [HashWords.toVector, HashWords.toBytes, ofBytes_toBeBytes]
  rw [hfinal, Sha2.sha256, hbits, toBytes_ofBytes]

end Sha256

example : (sha256 (asciiBytes "abc")).val =
    [0xba, 0x78, 0x16, 0xbf, 0x8f, 0x01, 0xcf, 0xea, 0x41, 0x41, 0x40, 0xde,
      0x5d, 0xae, 0x22, 0x23, 0xb0, 0x03, 0x61, 0xa3, 0x96, 0x17, 0x7a, 0x9c,
      0xb4, 0x10, 0xff, 0x61, 0xf2, 0x00, 0x15, 0xad] := by
  decide +kernel

/-! ## The keyed digest and the password hash -/

theorem length_sha256 (message : Bytes) : (Sha2.sha256 message).length = 32 := by
  have hdigest := (absorbed_new.update message).finalize_eq_standard
  rw [nil_append] at hdigest
  rw [← hdigest]
  exact (new.update message).finalize.property

theorem hmacSha256_eq (key : Bytes) (parts : List Bytes) :
    (hmacSha256 key parts).val = keyedHash Sha2.sha256 64 key parts.flatten := by
  have hkey : (new.update key).finalize.val = Sha2.sha256 key :=
    (absorbed_new.update key).finalize_eq_standard
  have hblock : (if 64 < key.length then
        (new.update key).finalize.val ++ replicate 32 0
      else key ++ replicate (64 - key.length) 0) =
      (if 64 < key.length then Sha2.sha256 key else key) ++
        replicate (64 - (if 64 < key.length then Sha2.sha256 key else key).length) 0 := by
    split
    · rw [hkey, length_sha256]
    · rfl
  simp only [hmacSha256, hblock, keyedHash]
  generalize (if 64 < key.length then Sha2.sha256 key else key) ++ _ = padded
  have hinner := ((absorbed_new.update (padded.map (0x36 ^^^ ·))).foldl
    parts).finalize_eq_standard
  have houter := ((absorbed_new.update (padded.map (0x5c ^^^ ·))).update
    (parts.foldl update (new.update (padded.map (0x36 ^^^ ·)))).finalize.val
    ).finalize_eq_standard
  rw [houter, hinner]
  simp only [nil_append, UInt8.xor_comm]

/-- The loop keeps a member of the sequence and the sum up to it. -/
theorem pbkdf2Round_foldl (password salt : Bytes) (count : ℕ) :
    let u := hmacSha256 password [salt, Bytes.toBeBytes 4 1]
    let state := (List.range count).foldl (fun state _ => pbkdf2Round password state) (u, u)
    state.1.val = Pbkdf2.iterate (keyedHash Sha2.sha256 64) password salt 1 count ∧ state.2.val =
        Pbkdf2.block (keyedHash Sha2.sha256 64) password salt 1 (count + 1) := by
  induction count with
  | zero =>
    have hfirst : (hmacSha256 password [salt, Bytes.toBeBytes 4 1]).val =
        Pbkdf2.iterate (keyedHash Sha2.sha256 64) password salt 1 0 := by
      rw [hmacSha256_eq, Pbkdf2.iterate]
      simp
    exact ⟨hfirst, hfirst⟩
  | succ count ih =>
    obtain ⟨hmember, hsum⟩ := ih
    simp only [range_succ, foldl_append, foldl_cons, Pbkdf2.block, Nat.add_sub_cancel] at hsum ⊢
    generalize (List.range count).foldl (fun state _ => pbkdf2Round password state) _ = state at *
    have hnext : (hmacSha256 password [state.1.val]).val =
        Pbkdf2.iterate (keyedHash Sha2.sha256 64) password salt 1 (count + 1) := by
      rw [hmacSha256_eq, Pbkdf2.iterate, hmember]
      simp
    refine ⟨hnext, ?_⟩
    rw [← hsum, ← hnext]
    rfl

theorem pbkdf2HmacSha256_eq (password salt : Bytes) (rounds : UInt32) :
    (pbkdf2HmacSha256 password salt rounds).val =
      Pbkdf2.block (keyedHash Sha2.sha256 64) password salt 1 (max rounds.toNat 1) := by
  have hloop := (pbkdf2Round_foldl password salt (max rounds.toNat 1 - 1)).2
  exact hloop

/-- A message cut into chunks in any way has the published digest, so that the
keyed digest and the password hash are the published ones as well. -/
theorem streaming_sha256_conforms :
    (∀ chunks : List Bytes,
      (chunks.foldl Sha256.update Sha256.new).finalize.val = Sha2.sha256 chunks.flatten) ∧
    (∀ key parts, (hmacSha256 key parts).val = keyedHash Sha2.sha256 64 key parts.flatten) ∧
    ∀ password salt rounds, (pbkdf2HmacSha256 password salt rounds).val =
      Pbkdf2.block (keyedHash Sha2.sha256 64) password salt 1 (max rounds.toNat 1) := by
  refine ⟨fun chunks => ?_, hmacSha256_eq, pbkdf2HmacSha256_eq⟩
  exact (absorbed_new.foldl chunks).finalize_eq_standard

end ExpOS
