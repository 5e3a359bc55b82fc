import Mathlib.Data.List.Forall2
import ExpOS.Support.Bytes
import ExpOS.Support.Outcome

/-!
# HTTP replies and their relay

An isolated worker parses the octets a web server sent and passes the reply
on to the kernel in a fixed layout: sixteen octets of lengths and flags, then
body, location, content type and cookie.  The kernel decodes that layout with
checks of its own.

The source keeps each part of a reply in a zero-padded buffer with a length.
Only the occupied parts are kept here, and a reply carries the bounds that
parsing and decoding both establish.
-/

namespace ExpOS

open List Bytes

def httpBodyCapacity : ℕ := 56 * 1024
def httpLocationCapacity : ℕ := 512
def httpContentTypeCapacity : ℕ := 96
def httpCookieCapacity : ℕ := 384

inductive HttpError where
  | malformedHttp
deriving DecidableEq

/-! ## Header values -/

/-- Every octet is a visible one, from `minimum` to the tilde. -/
def isVisible (minimum : UInt8) (octets : Bytes) : Bool :=
  octets.all fun octet => minimum ≤ octet && octet ≤ 0x7E

/-- The occupied part of a header buffer. -/
structure HeaderValue (minimum : UInt8) (capacity : ℕ) where
  content : Bytes
  length_le : content.length ≤ capacity
  visible : isVisible minimum content = true
deriving DecidableEq

namespace HeaderValue

variable {minimum : UInt8} {capacity : ℕ}

def empty : HeaderValue minimum capacity := ⟨[], Nat.zero_le _, rfl⟩

/-- Octets that are accepted as a header value. -/
def check (minimum : UInt8) (capacity : ℕ) (octets : Bytes) :
    Except HttpError (HeaderValue minimum capacity) :=
  if h : octets.length ≤ capacity ∧ isVisible minimum octets = true then
    .ok ⟨octets, h.1, h.2⟩
  else
    .error .malformedHttp

theorem check_content (value : HeaderValue minimum capacity) :
    check minimum capacity value.content = .ok value := by
  rw [check, dif_pos ⟨value.length_le, value.visible⟩]

end HeaderValue

/-- The reply as far as the source keeps it. -/
structure HttpResponse where
  status : ℕ
  status_lt : status < 2 ^ 16
  body : Bytes
  body_le : body.length ≤ httpBodyCapacity
  truncated : Bool
  peer : ByteBlock 4
  location : HeaderValue 0x21 httpLocationCapacity
  contentType : HeaderValue 0x20 httpContentTypeCapacity
  setCookie : HeaderValue 0x20 httpCookieCapacity
deriving DecidableEq

/-! ## Parsing -/

def crlf : Bytes := [13, 10]

def isBlank (octet : UInt8) : Bool := octet == 0x20 || octet == 0x09

def isAsciiDigit (octet : UInt8) : Bool := 0x30 ≤ octet && octet ≤ 0x39

/-- White space in the sense of `trim_ascii`. -/
def isAsciiSpace (octet : UInt8) : Bool :=
  octet == 0x20 || octet == 0x09 || octet == 0x0A || octet == 0x0C ||
    octet == 0x0D

def trimAscii (octets : Bytes) : Bytes :=
  ((octets.dropWhile isAsciiSpace).reverse.dropWhile isAsciiSpace).reverse

def decimalDigit (octet : UInt8) : Option ℕ :=
  if isAsciiDigit octet then some (octet.toNat - 0x30) else none

def hexDigit (octet : UInt8) : Option ℕ :=
  if isAsciiDigit octet then some (octet.toNat - 0x30)
  else if 0x61 ≤ octet && octet ≤ 0x66 then some (octet.toNat - 0x61 + 10)
  else if 0x41 ≤ octet && octet ≤ 0x46 then some (octet.toNat - 0x41 + 10)
  else none

/-- A number whose digits may stand apart.  `found` is the number so far, and
one too large for the machine is refused. -/
def parseDigits (base : ℕ) (digit : UInt8 → Option ℕ) : Option ℕ → Bytes → Option ℕ
  | found, [] => found
  | found, octet :: octets =>
    if isBlank octet then parseDigits base digit found octets
    else
      match digit octet with
      | none => none
      | some value =>
        let next := found.getD 0 * base + value
        if next < usizeLimit then
          parseDigits base digit (some next) octets
        else none

def parseAsciiUsize (octets : Bytes) : Option ℕ :=
  parseDigits 10 decimalDigit none octets

def parseChunkSize (line : Bytes) : Option ℕ :=
  parseDigits 16 hexDigit none (line.takeWhile (· != 0x3B))

/-- The body that chunks spell, as far as `room` octets go, and whether
something was left out. -/
def decodeChunked (input : Bytes) (room : ℕ) : Except HttpError (Bytes × Bool) :=
  match findBytes crlf input with
  | none => .error .malformedHttp
  | some lineEnd =>
    match parseChunkSize (input.take lineEnd) with
    | none => .error .malformedHttp
    | some chunkLength =>
      let rest := input.drop (lineEnd + 2)
      if chunkLength = 0 then .ok ([], false)
      else if rest.length < chunkLength + 2 then
        .error .malformedHttp
      else if (rest.drop chunkLength).take 2 ≠ crlf then
        .error .malformedHttp
      else if room < chunkLength then .ok (rest.take room, true)
      else
        match decodeChunked (rest.drop (chunkLength + 2))
            (room - chunkLength) with
        | .error failure => .error failure
        | .ok (body, truncated) =>
          .ok (rest.take chunkLength ++ body, truncated)
termination_by input.length
decreasing_by
  next hlong _ _ =>
    simp only [rest, List.length_drop] at hlong ⊢
    omega

/-- The header lines of a block, each ended by a line end or by the end of
the block. -/
def headerLines : Bytes → List Bytes
  | [] => []
  | 13 :: 10 :: rest => [] :: headerLines rest
  | octet :: rest =>
    match headerLines rest with
    | [] => [[octet]]
    | line :: more => (octet :: line) :: more

/-- What the header lines have said so far. -/
structure HeaderFields where
  contentLength : Option ℕ
  chunked : Bool
  location : HeaderValue 0x21 httpLocationCapacity
  contentType : HeaderValue 0x20 httpContentTypeCapacity
  setCookie : HeaderValue 0x20 httpCookieCapacity

def HeaderFields.start : HeaderFields :=
  ⟨none, false, .empty, .empty, .empty⟩

/-- The value of a header that is kept. -/
def headerValue (minimum : UInt8) (capacity : ℕ) (value : Bytes) :
    Except HttpError (HeaderValue minimum capacity) :=
  if trimAscii value = [] then .error .malformedHttp
  else HeaderValue.check minimum capacity (trimAscii value)

/-- The value names the chunked encoding somewhere. -/
def namesChunked (value : Bytes) : Bool :=
  value.tails.any fun part =>
    Bytes.eqIgnoreAsciiCase (part.take 7) (asciiBytes "chunked")

def parseField (fields : HeaderFields) (name value : Bytes) : Except HttpError HeaderFields :=
  if Bytes.eqIgnoreAsciiCase name (asciiBytes "content-length") then
    match parseAsciiUsize value with
    | none => .error .malformedHttp
    | some length => .ok { fields with contentLength := some length }
  else if Bytes.eqIgnoreAsciiCase name (asciiBytes "location") then do
    let location ← headerValue 0x21 httpLocationCapacity value
    .ok { fields with location }
  else if Bytes.eqIgnoreAsciiCase name (asciiBytes "content-type") then do
    let contentType ← headerValue 0x20 httpContentTypeCapacity value
    .ok { fields with contentType }
  else if Bytes.eqIgnoreAsciiCase name (asciiBytes "set-cookie") &&
      fields.setCookie.content == [] then do
    let setCookie ← headerValue 0x20 httpCookieCapacity value
    .ok { fields with setCookie }
  else if Bytes.eqIgnoreAsciiCase name (asciiBytes "transfer-encoding") &&
      namesChunked value then
    .ok { fields with chunked := true }
  else
    .ok fields

/-- One header line; a line without a colon is passed over. -/
def parseHeader (fields : HeaderFields) (line : Bytes) : Except HttpError HeaderFields :=
  match line.findIdx? (· == 0x3A) with
  | none => .ok fields
  | some colon =>
    parseField fields (line.take colon) (line.drop (colon + 1))

/-- The three digits behind the first blank of the status line. -/
def parseStatus (statusLine : Bytes) : Except HttpError ℕ :=
  if ¬ (asciiBytes "HTTP/1.").isPrefixOf statusLine then
    .error .malformedHttp
  else
    match statusLine.findIdx? (· == 0x20) with
    | none => .error .malformedHttp
    | some firstSpace =>
      match (statusLine.drop (firstSpace + 1)).take 3 with
      | [hundreds, tens, ones] =>
        if [hundreds, tens, ones].all isAsciiDigit then
          .ok ((hundreds.toNat - 0x30) * 100 + (tens.toNat - 0x30) * 10 + (ones.toNat - 0x30))
        else .error .malformedHttp
      | _ => .error .malformedHttp

theorem parseStatus_lt {statusLine : Bytes} {status : ℕ}
    (h : parseStatus statusLine = .ok status) : status < 2 ^ 16 := by
  unfold parseStatus at h
  split at h
  · cases h
  split at h
  · cases h
  split at h
  · next hundreds tens ones _ =>
      split at h
      · obtain rfl := Except.ok.inj h
        have h₁ := hundreds.toNat_lt
        have h₂ := tens.toNat_lt
        have h₃ := ones.toNat_lt
        omega
      · cases h
  · cases h

variable {input body : Bytes} {room : ℕ} {truncated : Bool}

/-- Chunks never spell more than there is room for. -/
theorem decodeChunked_length (h : decodeChunked input room = .ok (body, truncated)) :
    body.length ≤ room := by
  fun_induction decodeChunked input room generalizing body truncated with
  | case1 => cases h
  | case2 => cases h
  | case3 =>
    cases h
    exact Nat.zero_le _
  | case4 => cases h
  | case5 => cases h
  | case6 =>
    cases h
    exact length_take_le _ _
  | case7 => cases h
  | case8 input room lineEnd _ chunkLength _ =>
    rename_i rest _ _ _ hroom _ _ hrest ih
    cases h
    have hbody := ih hrest
    have htake := length_take_le chunkLength rest
    rw [length_append]
    omega

/-! ## Chunked bodies -/

/-- The octets from `start` up to `stop`; a slice that is out of range halts. -/
def sliceOf (octets : Bytes) (start stop : ℕ) : Outcome HttpError Bytes :=
  if start ≤ stop ∧ stop ≤ octets.length then .done ((octets.drop start).take (stop - start))
  else .halt

/-- The loop of `decode_chunked` with the offsets of the source.  The check of
the chunk's end also refuses a sum that overflows. -/
def decodeChunkedFrom (input : Bytes) (room inputOffset : ℕ) (output : Bytes) :
    Outcome HttpError (Bytes × Bool) :=
  sliceOf input inputOffset input.length >>= fun ahead =>
  match findBytes crlf ahead with
  | none => .fail .malformedHttp
  | some relative =>
    sliceOf input inputOffset (inputOffset + relative) >>= fun line =>
    match parseChunkSize line with
    | none => .fail .malformedHttp
    | some chunkLength =>
      let start := inputOffset + relative + 2
      if usizeLimit ≤ start then .halt
      else if chunkLength = 0 then .done (output, false)
      else if input.length < start + chunkLength + 2 then .fail .malformedHttp
      else
        sliceOf input (start + chunkLength) (start + chunkLength + 2) >>= fun ending =>
        if ending ≠ crlf then .fail .malformedHttp
        else
          let copied := min chunkLength (room - output.length)
          sliceOf input start (start + copied) >>= fun part =>
          if room < output.length + copied then .halt
          else if copied ≠ chunkLength then .done (output ++ part, true)
          else decodeChunkedFrom input room (start + chunkLength + 2) (output ++ part)
termination_by input.length - inputOffset
decreasing_by omega

theorem sliceOf_eq {octets : Bytes} {start stop : ℕ} (h : start ≤ stop)
    (hstop : stop ≤ octets.length) :
    sliceOf octets start stop = .done ((octets.drop start).take (stop - start)) :=
  if_pos ⟨h, hstop⟩

/-- With offsets the loop does the same: no slice is out of range, and no sum
overflows. -/
theorem decodeChunkedFrom_eq (hmemory : input.length < usizeLimit) {offset : ℕ}
    {output : Bytes} (hoffset : offset ≤ input.length) (houtput : output.length ≤ room) :
    decodeChunkedFrom input room offset output =
      match decodeChunked (input.drop offset) (room - output.length) with
      | .error failure => .fail failure
      | .ok (body, truncated) => .done (output ++ body, truncated) := by
  rw [decodeChunkedFrom, decodeChunked, sliceOf_eq hoffset le_rfl, Outcome.done_bind,
    take_of_length_le (by simp)]
  cases hfind : findBytes crlf (input.drop offset) with
  | none => rfl
  | some relative =>
    have hle := (findBytes_append hfind []).1
    rw [length_drop, crlf, length_cons, length_singleton] at hle
    dsimp only
    rw [sliceOf_eq (by omega) (by omega), Outcome.done_bind, Nat.add_sub_cancel_left]
    cases parseChunkSize ((input.drop offset).take relative) with
    | none => rfl
    | some chunkLength =>
      dsimp only
      rw [if_neg (by omega)]
      split
      · simp
      simp only [length_drop, drop_drop, ← Nat.add_assoc]
      have hends : input.length < offset + relative + 2 + chunkLength + 2 ↔
          input.length - (offset + relative + 2) < chunkLength + 2 := by omega
      rw [if_congr hends rfl rfl]
      split
      · rfl
      rw [sliceOf_eq (by omega) (by omega), Outcome.done_bind, Nat.add_sub_cancel_left]
      split
      · rfl
      rw [sliceOf_eq (by omega) (by omega), Outcome.done_bind, Nat.add_sub_cancel_left,
        if_neg (by omega)]
      by_cases hshort : room - output.length < chunkLength
      · rw [if_pos (by omega), if_pos hshort, Nat.min_eq_right hshort.le]
      rw [if_neg (by omega), if_neg hshort, Nat.min_eq_left (by omega),
        decodeChunkedFrom_eq hmemory (by omega) (by simp; omega), length_append,
        length_take_of_le (by simp; omega), Nat.sub_add_eq]
      cases decodeChunked (input.drop (offset + relative + 2 + chunkLength + 2))
        (room - output.length - chunkLength) with
      | error failure => rfl
      | ok rest => simp
termination_by input.length - offset

/-- A hexadecimal digit and its value, in either case. -/
def HexOctet (octet : UInt8) (value : ℕ) : Prop :=
  (asciiBytes "0123456789abcdef")[value]? = some octet ∨
    (asciiBytes "0123456789ABCDEF")[value]? = some octet

theorem hexDigit_eq_some_iff {octet : UInt8} {value : ℕ} :
    hexDigit octet = some value ↔ HexOctet octet value := by
  constructor
  · have hall : ∀ octet : Fin 256, ∀ value ∈ hexDigit (.ofFin octet),
        HexOctet (.ofFin octet) value := by
      unfold HexOctet
      decide +kernel
    exact hall octet.toFin value
  · have hall : ∀ value : Fin 16, hexDigit (asciiBytes "0123456789abcdef")[value] = some value.1 ∧
        hexDigit (asciiBytes "0123456789ABCDEF")[value] = some value.1 := by decide
    rintro (h | h)
    · obtain ⟨hlt, rfl⟩ := List.getElem?_eq_some_iff.mp h
      exact (hall ⟨value, hlt⟩).1
    · obtain ⟨hlt, rfl⟩ := List.getElem?_eq_some_iff.mp h
      exact (hall ⟨value, hlt⟩).2

/-- The line spells the size in hexadecimal: blanks may stand anywhere among
the digits, and an extension may follow them. -/
def SpellsSize (line : Bytes) (size : ℕ) : Prop :=
  ∃ digits ≠ [], Forall₂ HexOctet ((line.takeWhile (· != 0x3B)).filter (!isBlank ·)) digits ∧
    size = digits.foldl (· * 16 + ·) 0 ∧ size < usizeLimit

theorem le_foldl_hex (digits : List ℕ) (found : ℕ) : found ≤ digits.foldl (· * 16 + ·) found := by
  induction digits generalizing found with
  | nil => rfl
  | cons digit digits ih => exact le_trans (by dsimp only; omega) (ih _)

theorem exists_forall₂_hexOctet {octet : UInt8} {octets : Bytes} {value : ℕ} {p : List ℕ → Prop}
    (h : hexDigit octet = some value) :
    (∃ digits, Forall₂ HexOctet (octet :: octets) digits ∧ p digits) ↔
      ∃ digits, Forall₂ HexOctet octets digits ∧ p (value :: digits) := by
  constructor
  · rintro ⟨_, _ | ⟨hoctet, hdigits⟩, hp⟩
    rw [← hexDigit_eq_some_iff, h] at hoctet
    cases hoctet
    exact ⟨_, hdigits, hp⟩
  · rintro ⟨digits, hdigits, hp⟩
    exact ⟨value :: digits, .cons (hexDigit_eq_some_iff.mp h) hdigits, hp⟩

/-- Behind the digits `found` the parser reads the number that the digits ahead
continue, unless it is too large. -/
theorem parseDigits_eq_some_iff {found : Option ℕ} {octets : Bytes} {size : ℕ} :
    parseDigits 16 hexDigit found octets = some size ↔
      ∃ digits, Forall₂ HexOctet (octets.filter (!isBlank ·)) digits ∧
        if digits = [] then found = some size
        else size = digits.foldl (· * 16 + ·) (found.getD 0) ∧ size < usizeLimit := by
  fun_induction parseDigits 16 hexDigit found octets with
  | case1 found => simp
  | case2 found octet octets hblank ih => simpa [hblank] using ih
  | case3 found octet octets hblank hdigit =>
    simp [hblank, forall₂_cons_left_iff, ← hexDigit_eq_some_iff, hdigit]
  | case4 found octet octets hblank value hdigit next hlt ih =>
    rw [ih, filter_cons_of_pos (by simpa using hblank), exists_forall₂_hexOctet hdigit]
    refine exists_congr fun digits => and_congr_right fun _ => ?_
    cases digits with
    | nil =>
        have hiff : next = size ↔ size = next ∧ size < usizeLimit := by grind
        simpa using hiff
    | cons digit digits => rfl
  | case5 found octet octets hblank value hdigit next hlt =>
    rw [filter_cons_of_pos (by simpa using hblank), exists_forall₂_hexOctet hdigit]
    refine iff_of_false (by simp) ?_
    rintro ⟨digits, -, hsize, hbound⟩
    have hle : next ≤ size := hsize ▸ le_foldl_hex digits next
    omega

theorem parseChunkSize_eq_some_iff {line : Bytes} {size : ℕ} :
    parseChunkSize line = some size ↔ SpellsSize line size := by
  rw [parseChunkSize, parseDigits_eq_some_iff, SpellsSize]
  refine exists_congr fun digits => ?_
  by_cases hnil : digits = [] <;> simp [hnil]

/-- A line that says a size. -/
def SizeLine (line : Bytes) (size : ℕ) : Prop :=
  findBytes crlf (line ++ crlf) = some line.length ∧ SpellsSize line size

/-- The octets spell the chunks, with anything behind the last line. -/
inductive Spells : List Bytes → Bytes → Prop
  | last {line : Bytes} (h : SizeLine line 0) (trailers : Bytes) :
    Spells [] (line ++ crlf ++ trailers)
  | chunk {line data : Bytes} {chunks : List Bytes} {wire : Bytes} (h : SizeLine line data.length)
    (hdata : data ≠ []) (rest : Spells chunks wire) :
    Spells (data :: chunks) (line ++ crlf ++ (data ++ crlf ++ wire))

theorem Spells.decodes {chunks : List Bytes} {wire : Bytes} (h : Spells chunks wire) (room : ℕ) :
    decodeChunked wire room =
      .ok (chunks.flatten.take room, decide (room < chunks.flatten.length)) := by
  have hline : ∀ line rest : Bytes, (line ++ crlf ++ rest).take line.length = line ∧
      (line ++ crlf ++ rest).drop (line.length + 2) = rest := fun line rest =>
    ⟨by rw [append_assoc, take_left], drop_left' (by simp [crlf])⟩
  induction h generalizing room with
  | last h trailers =>
    rw [decodeChunked, (findBytes_append h.1 _).2]
    simp [parseChunkSize_eq_some_iff.mpr h.2]
  | @chunk line data chunks wire h hdata rest ih =>
    have hpos := length_pos_iff.mpr hdata
    rw [decodeChunked, (findBytes_append h.1 _).2]
    dsimp only
    rw [(hline _ _).1, (hline _ _).2, parseChunkSize_eq_some_iff.mpr h.2]
    dsimp only
    have hlength : (data ++ crlf ++ wire).length = data.length + wire.length + 2 := by
      simp [crlf, Nat.add_assoc]
    have hending : ((data ++ crlf ++ wire).drop data.length).take 2 = crlf := by
      rw [append_assoc, drop_left]
      rfl
    rw [if_neg hpos.ne', if_neg (by omega), if_neg (not_not.mpr hending), (hline _ _).1,
      (hline _ _).2, ih, flatten_cons, length_append, append_assoc]
    split
    · next hshort =>
        rw [take_append_of_le_length hshort.le, take_append_of_le_length hshort.le,
          decide_eq_true (show room < data.length + chunks.flatten.length by omega)]
    rename_i hroom
    rw [take_append, take_of_length_le (not_lt.mp hroom)]
    simp only [Nat.sub_lt_iff_lt_add' (not_lt.mp hroom)]

/-- Every chunking of a body decodes to as much of it as there is room for, in
every hexadecimal spelling of the sizes, and the parser accepts no other; no
input makes the loop leave its buffers or overflow. -/
theorem decodeChunked_chunks {input : Bytes} (hmemory : input.length < usizeLimit) (room : ℕ) :
    decodeChunkedFrom input room 0 [] ≠ .halt ∧
    (∀ line size, parseChunkSize line = some size ↔ SpellsSize line size) ∧
    ∀ chunks, Spells chunks input →
      decodeChunkedFrom input room 0 [] =
        .done (chunks.flatten.take room, decide (room < chunks.flatten.length)) := by
  rw [decodeChunkedFrom_eq hmemory (Nat.zero_le _) (Nat.zero_le _), drop_zero]
  refine ⟨?_, fun _ _ => parseChunkSize_eq_some_iff, ?_⟩
  · split <;> simp
  · intro chunks h
    rw [h.decodes]
    simp

theorem decodeChunked_chunks_two :
    let input := asciiBytes "1;x\r\nA\r\n a \r\n0123456789\r\n00\r\nT: u\r\n"
    input.length < usizeLimit ∧
      decodeChunkedFrom input 4 0 [] = .done (asciiBytes "A012", true) :=
  ⟨by decide, (decodeChunked_chunks (by decide) 4).2.2 [asciiBytes "A", asciiBytes "0123456789"]
    (@Spells.chunk (asciiBytes "1;x") _ _ _
      ⟨by decide, [1], by decide, .cons (.inl rfl) .nil, by decide⟩ (by decide)
      (@Spells.chunk (asciiBytes " a ") _ _ _
        ⟨by decide, [10], by decide, .cons (.inl rfl) .nil, by decide⟩ (by decide)
        (@Spells.last (asciiBytes "00")
          ⟨by decide, [0, 0], by decide, .cons (.inl rfl) (.cons (.inl rfl) .nil), by decide⟩
          (asciiBytes "T: u\r\n"))))⟩

/-! ## Replies -/

/-- The body when its length is announced or runs to the end, and whether
something of it is missing. -/
def plainBody (contentLength : Option ℕ) (encodedBody : Bytes)
    (wireTruncated : Bool) : Except HttpError (Bytes × Bool) :=
  let expected := contentLength.getD encodedBody.length
  if encodedBody.length < expected ∧ wireTruncated = false then
    .error .malformedHttp
  else
    let available := min expected encodedBody.length
    .ok (encodedBody.take (min available httpBodyCapacity),
      decide (httpBodyCapacity < expected) || decide (available < expected) ||
        (contentLength.isNone && wireTruncated))

def parseBody (fields : HeaderFields) (encodedBody : Bytes)
    (wireTruncated : Bool) : Except HttpError (Bytes × Bool) :=
  if fields.chunked then
    match decodeChunked encodedBody httpBodyCapacity with
    | .error failure => .error failure
    | .ok (body, truncated) => .ok (body, truncated || wireTruncated)
  else
    plainBody fields.contentLength encodedBody wireTruncated

theorem parseBody_length {fields : HeaderFields} {encodedBody : Bytes} {wireTruncated : Bool}
    (h : parseBody fields encodedBody wireTruncated = .ok (body, truncated)) :
    body.length ≤ httpBodyCapacity := by
  unfold parseBody at h
  split at h
  · split at h
    · cases h
    rename_i hchunks
    cases h
    exact decodeChunked_length hchunks
  · simp only [plainBody] at h
    split at h
    · cases h
    · cases h
      exact (length_take_le _ _).trans (Nat.min_le_right _ _)

def parseHttpResponse (peer : ByteBlock 4) (wire : Bytes)
    (wireTruncated : Bool) : Except HttpError HttpResponse :=
  match findBytes (crlf ++ crlf) wire with
  | none => .error .malformedHttp
  | some headerEnd =>
    let head := wire.take headerEnd
    let firstLineEnd := (findBytes crlf head).getD headerEnd
    match hstatus : parseStatus (head.take firstLineEnd) with
    | .error failure => .error failure
    | .ok status =>
      match (headerLines (head.drop (firstLineEnd + 2))).foldlM
          parseHeader HeaderFields.start with
      | .error failure => .error failure
      | .ok fields =>
        match hbody : parseBody fields (wire.drop (headerEnd + 4))
            wireTruncated with
        | .error failure => .error failure
        | .ok (body, truncated) =>
          .ok
            { status, body, truncated, peer
              status_lt := parseStatus_lt hstatus
              body_le := parseBody_length hbody
              location := fields.location
              contentType := fields.contentType
              setCookie := fields.setCookie }

/-! ## The relay layout -/

namespace HttpResponse

def encodedLength (response : HttpResponse) : ℕ :=
  16 + response.body.length + response.location.content.length +
    response.contentType.content.length + response.setCookie.content.length

/-- Status, flags, lengths and peer. -/
def head (response : HttpResponse) : Bytes :=
  Bytes.toLeBytes 2 response.status ++ [if response.truncated then 1 else 0] ++ [0] ++
    Bytes.toLeBytes 2 response.body.length ++ Bytes.toLeBytes 2 response.location.content.length ++
    Bytes.toLeBytes 2 response.contentType.content.length ++
    Bytes.toLeBytes 2 response.setCookie.content.length ++ response.peer.val

/-- What is written to a buffer of `room` octets. -/
def encode (response : HttpResponse) (room : ℕ) : Except HttpError Bytes :=
  if room < response.encodedLength then .error .malformedHttp
  else .ok
    (response.head ++ (response.body ++ (response.location.content ++
      (response.contentType.content ++ response.setCookie.content))))

/-- The sixteen-bit word at a place. -/
def wordAt (octets : Bytes) (place : ℕ) : ℕ :=
  Bytes.fromLeBytes ((octets.drop place).take 2)

/-- The lengths and the status pass the checks of the decoder. -/
structure Admissible (octets : Bytes) : Prop where
  body : wordAt octets 4 ≤ httpBodyCapacity
  location : wordAt octets 6 ≤ httpLocationCapacity
  contentType : wordAt octets 8 ≤ httpContentTypeCapacity
  cookie : wordAt octets 10 ≤ httpCookieCapacity
  length : octets.length = 16 + wordAt octets 4 + wordAt octets 6 +
    wordAt octets 8 + wordAt octets 10
  status : 100 ≤ wordAt octets 0 ∧ wordAt octets 0 ≤ 599

instance (octets : Bytes) : Decidable (Admissible octets) :=
  decidable_of_iff
    (wordAt octets 4 ≤ httpBodyCapacity ∧ wordAt octets 6 ≤ httpLocationCapacity ∧
      wordAt octets 8 ≤ httpContentTypeCapacity ∧ wordAt octets 10 ≤ httpCookieCapacity ∧
      octets.length = 16 + wordAt octets 4 + wordAt octets 6 + wordAt octets 8 + wordAt octets 10 ∧
      (100 ≤ wordAt octets 0 ∧ wordAt octets 0 ≤ 599))
    ⟨fun ⟨h₁, h₂, h₃, h₄, h₅, h₆⟩ => ⟨h₁, h₂, h₃, h₄, h₅, h₆⟩,
      fun ⟨h₁, h₂, h₃, h₄, h₅, h₆⟩ => ⟨h₁, h₂, h₃, h₄, h₅, h₆⟩⟩

theorem wordAt_lt (octets : Bytes) (place : ℕ) : wordAt octets place < 2 ^ 16 := by
  refine (fromLeBytes_lt _).trans_le ?_
  exact Nat.pow_le_pow_right (by decide) (length_take_le _ _) |>.trans (by decide)

def decode (octets : Bytes) : Except HttpError HttpResponse :=
  if hhead : octets.length < 16 ∨ 1 < octets.getD 2 0 ∨ octets.getD 3 0 ≠ 0 then
    .error .malformedHttp
  else if hfields : Admissible octets then
    let parts := octets.drop 16
    let behindBody := parts.drop (wordAt octets 4)
    let behindLocation := behindBody.drop (wordAt octets 6)
    let behindType := behindLocation.drop (wordAt octets 8)
    do
      let location ← HeaderValue.check 0x21 httpLocationCapacity
        (behindBody.take (wordAt octets 6))
      let contentType ← HeaderValue.check 0x20 httpContentTypeCapacity
        (behindLocation.take (wordAt octets 8))
      let setCookie ← HeaderValue.check 0x20 httpCookieCapacity
        (behindType.take (wordAt octets 10))
      .ok
        { status := wordAt octets 0
          status_lt := wordAt_lt octets 0
          body := parts.take (wordAt octets 4)
          body_le := (List.length_take_le _ _).trans hfields.body
          truncated := octets.getD 2 0 != 0
          peer := ⟨(octets.drop 12).take 4, by
            rw [List.length_take, List.length_drop]
            omega⟩
          location, contentType, setCookie }
  else
    .error .malformedHttp

/-! ## The layout is read back -/

theorem wordAt_eq {octets : Bytes} {place n : ℕ}
    (h : (octets.drop place).take 2 = Bytes.toLeBytes 2 n)
    (hn : n < 2 ^ 16) : wordAt octets place = n := by
  rw [wordAt, h]
  exact fromLeBytes_toLeBytes_of_lt hn

variable (response : HttpResponse)

theorem length_head : response.head.length = 16 := by
  simp [head, response.peer.property]

/-- The words of the head, whatever follows it. -/
structure HeadWords (octets : Bytes) : Prop where
  status : wordAt octets 0 = response.status
  body : wordAt octets 4 = response.body.length
  location : wordAt octets 6 = response.location.content.length
  contentType : wordAt octets 8 = response.contentType.content.length
  cookie : wordAt octets 10 = response.setCookie.content.length

theorem lengths_le : response.body.length ≤ 56 * 1024 ∧ response.location.content.length ≤ 512 ∧
    response.contentType.content.length ≤ 96 ∧ response.setCookie.content.length ≤ 384 :=
  ⟨response.body_le, response.location.length_le, response.contentType.length_le,
    response.setCookie.length_le⟩

theorem headWords (parts : Bytes) : HeadWords response (response.head ++ parts) := by
  have hlengths := response.lengths_le
  constructor
  · exact wordAt_eq (by simp [head]) response.status_lt
  · exact wordAt_eq (by simp [head, toLeBytes]) (by omega)
  · exact wordAt_eq (by simp [head, toLeBytes]) (by omega)
  · exact wordAt_eq (by simp [head, toLeBytes]) (by omega)
  · exact wordAt_eq (by simp [head, toLeBytes]) (by omega)

theorem head_flag (parts : Bytes) : (response.head ++ parts).getD 2 0 =
      if response.truncated then 1 else 0 := by
  simp [head]

theorem head_reserved (parts : Bytes) : (response.head ++ parts).getD 3 0 = 0 := by
  simp [head, toLeBytes]

theorem head_peer (parts : Bytes) :
    ((response.head ++ parts).drop 12).take 4 = response.peer.val := by
  simp [head, toLeBytes, response.peer.property]

/-- What follows the head. -/
def parts : Bytes :=
  response.body ++ (response.location.content ++
    (response.contentType.content ++ response.setCookie.content))

/-- Of what the decoder checks in the head only the status can be wrong. -/
theorem admissible_iff : Admissible (response.head ++ response.parts) ↔
    100 ≤ response.status ∧ response.status ≤ 599 := by
  have hwords := response.headWords response.parts
  constructor
  · intro h
    rw [← hwords.status]
    exact h.status
  intro h
  constructor
  · exact hwords.body.trans_le response.body_le
  · exact hwords.location.trans_le response.location.length_le
  · exact hwords.contentType.trans_le response.contentType.length_le
  · exact hwords.cookie.trans_le response.setCookie.length_le
  · rw [hwords.body, hwords.location, hwords.contentType, hwords.cookie]
    simp only [parts, length_append, length_head]
    omega
  · rw [hwords.status]
    exact h

/-- The decoder gives back what was encoded, or refuses its status. -/
theorem decode_encoded : decode (response.head ++ response.parts) =
    if 100 ≤ response.status ∧ response.status ≤ 599 then .ok response
    else .error .malformedHttp := by
  have hwords := response.headWords response.parts
  have hadmissible := response.admissible_iff
  have hflag := response.head_flag response.parts
  have hreserved := response.head_reserved response.parts
  have hpeer := response.head_peer response.parts
  have hdrop : (response.head ++ response.parts).drop 16 = response.parts :=
    drop_left' response.length_head
  generalize hoctets : response.head ++ response.parts = octets at *
  have hlength : 16 ≤ octets.length := by
    rw [← hoctets, length_append, length_head]
    omega
  have hhead : ¬ (octets.length < 16 ∨ 1 < octets.getD 2 0 ∨ octets.getD 3 0 ≠ 0) := by
    rw [hflag, hreserved]
    rintro (hshort | hflag | hreserved)
    · omega
    · split at hflag
      · exact absurd hflag (by decide)
      · exact absurd hflag (by decide)
    · exact hreserved rfl
  rw [decode, dif_neg hhead]
  by_cases hstatus : 100 ≤ response.status ∧ response.status ≤ 599
  · rw [dif_pos (hadmissible.mpr hstatus), if_pos hstatus]
    simp only [hdrop, parts, hwords.status, hwords.body, hwords.location,
      hwords.contentType, hwords.cookie, hflag, hpeer, take_left,
      drop_left, take_length, HeaderValue.check_content]
    obtain ⟨status, hlt, body, hbody, truncated, peer, location, contentType, setCookie⟩ := response
    cases truncated <;> rfl
  · rw [dif_neg (hadmissible.not.mpr hstatus), if_neg hstatus]

/-- The buffer in which the worker encodes replies. -/
def workerRoom : ℕ := 60 * 1024

/-- The worker's buffer holds every reply. -/
theorem encodedLength_le_workerRoom : response.encodedLength ≤ workerRoom := by
  have hlengths := response.lengths_le
  unfold encodedLength workerRoom
  omega

end HttpResponse

/-- Parse, pass on through a buffer of `room` octets, and decode. -/
def relayHttp (peer : ByteBlock 4) (wire : Bytes) (wireTruncated : Bool)
    (room : ℕ) : Except HttpError HttpResponse := do
  let response ← parseHttpResponse peer wire wireTruncated
  let octets ← response.encode room
  HttpResponse.decode octets

/-- A reply that the worker accepts reaches the kernel unchanged exactly if
its status is one the kernel accepts. -/
theorem relayHttp_eq_iff {peer : ByteBlock 4} {wire : Bytes}
    {wireTruncated : Bool} {response : HttpResponse} {room : ℕ}
    (h : parseHttpResponse peer wire wireTruncated = .ok response)
    (hroom : response.encodedLength ≤ room) :
    relayHttp peer wire wireTruncated room = .ok response ↔
      100 ≤ response.status ∧ response.status ≤ 599 := by
  have hrelay : relayHttp peer wire wireTruncated room =
      if 100 ≤ response.status ∧ response.status ≤ 599 then .ok response
      else .error .malformedHttp := by
    rw [relayHttp, h, ← HttpResponse.decode_encoded]
    change response.encode room >>= HttpResponse.decode = _
    rw [HttpResponse.encode, if_neg (Nat.not_lt.mpr hroom)]
    rfl
  rw [hrelay]
  constructor
  · intro hok
    by_contra hstatus
    rw [if_neg hstatus] at hok
    cases hok
  · intro hstatus
    rw [if_pos hstatus]

/-- A redirection with a body of two octets. -/
def nextReply : HttpResponse where
  status := 200
  status_lt := by decide
  body := asciiBytes "hi"
  body_le := by decide
  truncated := false
  peer := ⟨[1, 2, 3, 4], rfl⟩
  location := ⟨asciiBytes "/next", by decide, by decide⟩
  contentType := .empty
  setCookie := .empty

theorem nextReply_relayed : parseHttpResponse ⟨[1, 2, 3, 4], rfl⟩
        (asciiBytes ("HTTP/1.0 200 OK\r\nContent-Length: 2\r\n" ++
          "Location: /next\r\n\r\nhi")) false = .ok nextReply ∧
      nextReply.encodedLength ≤ HttpResponse.workerRoom ∧ relayHttp ⟨[1, 2, 3, 4], rfl⟩
        (asciiBytes ("HTTP/1.0 200 OK\r\nContent-Length: 2\r\n" ++
          "Location: /next\r\n\r\nhi")) false HttpResponse.workerRoom = .ok nextReply :=
  have hparsed : parseHttpResponse ⟨[1, 2, 3, 4], rfl⟩
      (asciiBytes ("HTTP/1.0 200 OK\r\nContent-Length: 2\r\n" ++
        "Location: /next\r\n\r\nhi")) false = .ok nextReply := by
    decide +kernel
  have hroom := nextReply.encodedLength_le_workerRoom
  ⟨hparsed, hroom, (relayHttp_eq_iff hparsed hroom).mpr (by decide)⟩

/-- The worker accepts every three digits as a status, the kernel does
not. -/
theorem status_999_not_relayed : (parseHttpResponse ⟨[1, 2, 3, 4], rfl⟩
        (asciiBytes "HTTP/1.1 999 Denied\r\n\r\n") false).map HttpResponse.status = .ok 999 ∧
      relayHttp ⟨[1, 2, 3, 4], rfl⟩ (asciiBytes "HTTP/1.1 999 Denied\r\n\r\n") false
          HttpResponse.workerRoom = .error .malformedHttp := by
  decide +kernel

end ExpOS
