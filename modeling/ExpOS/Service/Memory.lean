import ExpOS.Service.Image

/-!
# Loading a service

The arena of a service has 512 pages, of which the segments of the image, the
input area and the stack are mapped.  Loading copies the file-backed parts of
the segments into a zeroed arena and enters their pages in the page table with
the rights of the segment: writable pages are never executable.

Array accesses and sums halt where they would leave the array or overflow, and
loading never halts.
-/

namespace ExpOS

open List Function Outcome Option

/-- Where the allocator placed the octets of an arena. -/
structure ArenaBase where
  address : ℕ
  aligned : address % 4096 = 0
  fits : address + memoryBytes ≤ usizeLimit

/-- The page table and the octets of an arena. -/
structure ServiceMemory where
  base : ArenaBase
  table : ℕ → ℕ
  bytes : ℕ → UInt8

namespace ServiceMemory

/-- A zeroed arena. -/
def blank (base : ArenaBase) : ServiceMemory := ⟨base, fun _ => 0, fun _ => 0⟩

/-- The arena with some octets replaced. -/
def copied (m : ServiceMemory) (start : ℕ) (data : Bytes) : ServiceMemory :=
  { m with
    bytes := fun i =>
      if start ≤ i ∧ i < start + data.length then data.getD (i - start) 0
      else m.bytes i }

def copyIn (m : ServiceMemory) (start : ℕ) (data : Bytes) : Outcome ServiceError ServiceMemory :=
  if start + data.length ≤ memoryBytes then .done (m.copied start data)
  else .halt

/-- The entry of a page. -/
def entryOf (m : ServiceMemory) (flags page : ℕ) : ℕ :=
  (m.base.address + page * 4096) ||| flags

def mapPage (flags : ℕ) (m : ServiceMemory) (page : ℕ) : Outcome ServiceError ServiceMemory :=
  if page < 512 ∧ m.base.address + page * 4096 < usizeLimit then
    .done { m with table := Function.update m.table page (m.entryOf flags page) }
  else .halt

def map (m : ServiceMemory) (offset length flags : ℕ) : Outcome ServiceError ServiceMemory := do
  let stop ← Outcome.addBelow usizeLimit offset length
  (List.range' (offset / 4096) (pageCeil stop - offset / 4096)).foldlM
    (mapPage flags) m

/-- The arena with some consecutive pages mapped. -/
def mapped (m : ServiceMemory) (first count flags : ℕ) : ServiceMemory :=
  { m with
    table := fun page =>
      if first ≤ page ∧ page < first + count then m.entryOf flags page
      else m.table page }

variable (m : ServiceMemory) (start : ℕ) (data : Bytes)

@[simp] theorem base_copied : (m.copied start data).base = m.base := rfl

@[simp] theorem table_copied : (m.copied start data).table = m.table := rfl

theorem bytes_copied (i : ℕ) : (m.copied start data).bytes i =
      if start ≤ i ∧ i < start + data.length then data.getD (i - start) 0
      else m.bytes i := rfl

variable (first count flags : ℕ)

@[simp] theorem base_mapped : (m.mapped first count flags).base = m.base := rfl

@[simp] theorem bytes_mapped : (m.mapped first count flags).bytes = m.bytes := rfl

theorem table_mapped (page : ℕ) : (m.mapped first count flags).table page =
      if first ≤ page ∧ page < first + count then
        (m.base.address + page * 4096) ||| flags
      else m.table page := rfl

/-- The rights of a segment's pages. -/
def segmentFlags (flags : ℕ) : ℕ :=
  pageFlags (decide (flags &&& 2 ≠ 0)) (decide (flags &&& 1 ≠ 0))

variable {elf : Bytes}

def loadSegment (m : ServiceMemory) (segment : Segment elf.length) :
    Outcome ServiceError ServiceMemory :=
  if segment.address < serviceBase then .halt
  else do
    let data ← slice elf segment.offset segment.fileSize
    let m ← m.copyIn segment.start data
    m.map segment.start segment.memorySize (segmentFlags segment.flags)

/-- Load an image and its input into an arena, if one was allocated. -/
def load (allocated : Option ArenaBase) (elf input : Bytes) :
    Outcome ServiceError (ServiceMemory × ℕ) :=
  if inputBytes < input.length then .fail .inputTooLarge
  else do
    let image ← ServiceImage.parse elf
    match allocated with
    | none => .fail .noMemory
    | some base => do
        let m ← image.segments.foldlM loadSegment (blank base)
        let m ← m.copyIn inputOffset input
        let m ← m.map inputOffset inputBytes (pageFlags false false)
        let m ← m.map stackOffset stackBytes (pageFlags true false)
        .done (m, image.entry)

/-- The bits a page must have to be written for the service. -/
def requiredFlags : ℕ := pageFlags true false

/-- Every page of a range has the required bits. -/
def allWritable (m : ServiceMemory) (first count : ℕ) : Outcome ServiceError Bool :=
  (List.range' first count).foldlM (fun writable page =>
    if writable = false then .done false
    else if 512 ≤ page then .halt
    else .done (m.table page &&& requiredFlags == requiredFlags)) true

/-- The address of a user range whose end is at most `limit`, if all of it is
writable. -/
def writableRange (limit : ℕ) (m : ServiceMemory)
    (userAddress length : ℕ) : Outcome ServiceError (Option ℕ) :=
  if userAddress < serviceBase then .done none
  else
    let offset := userAddress - serviceBase
    if usizeLimit ≤ offset + length then .done none
    else if length = 0 ∨ limit < offset + length then .done none
    else do
      let writable ← m.allWritable (offset / 4096)
        (pageCeil (offset + length) - offset / 4096)
      if writable then .done (some (m.base.address + offset))
      else .done none

def writablePhysicalRange (m : ServiceMemory) (userAddress length : ℕ) :
    Outcome ServiceError (Option ℕ) :=
  m.writableRange inputOffset userAddress length

def writableAliasRange (m : ServiceMemory) (userAddress length : ℕ) :
    Outcome ServiceError (Option ℕ) :=
  m.writableRange memoryBytes userAddress length

/-! ## Loading without halts -/

variable {m : ServiceMemory}

theorem copyIn_eq {start : ℕ} {data : Bytes} (h : start + data.length ≤ memoryBytes) :
    m.copyIn start data = .done (m.copied start data) :=
  if_pos h

variable {page : ℕ} {flags : ℕ}

theorem mapPage_eq (h : page < 512) : mapPage flags m page = .done
      { m with
        table := Function.update m.table page (m.entryOf flags page) } := by
  have hfits := m.base.fits
  have hbytes : memoryBytes = 512 * 4096 := by decide
  exact if_pos ⟨h, by omega⟩

/-- Mapping a range that starts with a page. -/
theorem map_eq {offset length : ℕ}
    (haligned : offset % 4096 = 0) (h : offset + length ≤ memoryBytes) :
    m.map offset length flags = .done (m.mapped (offset / 4096) (pageCeil length) flags) := by
  have hbytes : memoryBytes = 512 * 4096 := by decide
  have hlimit : usizeLimit = 18446744073709551616 := by decide
  rw [map, addBelow_eq (by omega), done_bind, pageCeil_add haligned, Nat.add_sub_cancel_left]
  have hzero : m = m.mapped (offset / 4096) 0 flags := by
    cases m
    simp only [mapped, mk.injEq, true_and, and_true]
    funext page
    rw [if_neg (by omega)]
  conv_lhs => rw [hzero]
  refine foldlM_range' (fun k => m.mapped (offset / 4096) k flags) _ _ fun k hk => ?_
  rw [lt_pageCeil_iff] at hk
  rw [mapPage_eq (by omega)]
  congr 1
  simp only [mapped, mk.injEq, true_and, and_true]
  funext page
  by_cases hpage : page = offset / 4096 + k
  · subst hpage
    rw [update_self, if_pos (by omega)]
    rfl
  · rw [update_of_ne hpage]
    by_cases hin : offset / 4096 ≤ page ∧ page < offset / 4096 + k
    · rw [if_pos hin, if_pos (by omega)]
    · rw [if_neg hin, if_neg (by omega)]

/-- The arena with a segment loaded. -/
def placed (m : ServiceMemory) (segment : Segment elf.length) :
    ServiceMemory :=
  (m.copied segment.start
    ((elf.drop segment.offset).take segment.fileSize)).mapped
    (segment.start / 4096) (pageCeil segment.memorySize)
    (segmentFlags segment.flags)

theorem loadSegment_eq (segment : Segment elf.length) :
    m.loadSegment segment = .done (m.placed segment) := by
  have hend := segment.start_add_le
  have hfile := segment.file_le
  have hinput : inputOffset ≤ memoryBytes := by decide
  have hlength : ((elf.drop segment.offset).take segment.fileSize).length ≤
      segment.fileSize := length_take_le _ _
  rw [loadSegment, if_neg (Nat.not_lt.mpr segment.base_le),
    slice_eq segment.within segment.fits, done_bind,
    copyIn_eq (by omega), done_bind,
    map_eq segment.start_mod (by omega)]
  rfl

theorem foldlM_loadSegment (segments : List (Segment elf.length)) (m : ServiceMemory) :
    segments.foldlM loadSegment m = .done (segments.foldl placed m) := by
  induction segments generalizing m with
  | nil => rfl
  | cons segment segments ih =>
    rw [foldlM_cons, loadSegment_eq, done_bind, ih, foldl_cons]

/-- The arena with everything loaded. -/
def loaded (base : ArenaBase) (image : ServiceImage elf.length) (input : Bytes) : ServiceMemory :=
  (((image.segments.foldl placed (blank base)).copied inputOffset
    input).mapped (inputOffset / 4096) (pageCeil inputBytes)
      (pageFlags false false)).mapped (stackOffset / 4096)
      (pageCeil stackBytes) (pageFlags true false)

theorem load_cases (allocated : Option ArenaBase) (elf input : Bytes) :
    (∃ failure, load allocated elf input = .fail failure) ∨
      ∃ base image, allocated = some base ∧ input.length ≤ inputBytes ∧
        ServiceImage.parse elf = .done image ∧
        load allocated elf input = .done (loaded base image input, image.entry) := by
  unfold load
  split
  · exact .inl ⟨_, rfl⟩
  rename_i hinput
  cases hparse : ServiceImage.parse elf with
  | halt => exact absurd hparse (ServiceImage.parse_ne_halt elf)
  | fail failure => exact .inl ⟨failure, rfl⟩
  | done image =>
    rw [done_bind]
    cases allocated with
    | none => exact .inl ⟨_, rfl⟩
    | some base =>
      refine .inr ⟨base, image, rfl, Nat.not_lt.mp hinput, rfl, ?_⟩
      have hin : inputOffset + input.length ≤ memoryBytes := by
        unfold inputOffset memoryBytes
        unfold inputBytes at hinput
        omega
      dsimp only
      rw [foldlM_loadSegment, done_bind, copyIn_eq hin, done_bind, map_eq (by decide) (by decide),
        done_bind, map_eq (by decide) (by decide),
        done_bind]
      rfl

/-! ## What the segments leave in the arena -/

section Segments

variable {m : ServiceMemory} {s : Segment elf.length}
variable {segments : List (Segment elf.length)}

theorem base_placed (m : ServiceMemory) (s : Segment elf.length) : (m.placed s).base = m.base := by
  rw [placed, base_mapped, base_copied]

theorem table_placed (m : ServiceMemory) (s : Segment elf.length) (page : ℕ) :
    (m.placed s).table page =
      if s.HasPage page then m.entryOf (segmentFlags s.flags) page
      else m.table page := by
  rw [placed, table_mapped, base_copied, table_copied, entryOf]
  by_cases hpage : s.HasPage page
  · rw [if_pos hpage, if_pos (And.intro hpage.1 hpage.2)]
  · rw [if_neg hpage, if_neg fun hin => hpage ⟨hin.1, hin.2⟩]

/-- The octet of a file-backed place, and the old octet elsewhere. -/
theorem bytes_placed (m : ServiceMemory) (s : Segment elf.length) (i : ℕ) : (m.placed s).bytes i =
      if s.start ≤ i ∧ i < s.start + s.fileSize then
        elf.getD (s.offset + (i - s.start)) 0
      else m.bytes i := by
  have hwithin := s.within
  have hlength : ((elf.drop s.offset).take s.fileSize).length = s.fileSize := by
    rw [length_take, length_drop]
    omega
  rw [placed, bytes_mapped, bytes_copied, hlength]
  by_cases hin : s.start ≤ i ∧ i < s.start + s.fileSize
  · rw [if_pos hin, if_pos hin, getD_eq_getElem?_getD,
      List.getElem?_take_of_lt (by omega), List.getElem?_drop,
      getD_eq_getElem?_getD]
  · rw [if_neg hin, if_neg hin]

theorem hasPage_of_file {i : ℕ} (hlow : s.start ≤ i)
    (hhigh : i < s.start + s.fileSize) : s.HasPage (i / 4096) := by
  have hfile := s.file_le
  have hmod := s.start_mod
  have hround := le_pageCeil_mul s.memorySize
  constructor <;> omega

theorem bytes_placed_of_not_hasPage {i : ℕ} (h : ¬ s.HasPage (i / 4096)) :
    (m.placed s).bytes i = m.bytes i := by
  rw [bytes_placed, if_neg fun hin => h (hasPage_of_file hin.1 hin.2)]

theorem base_foldl_placed : (segments.foldl placed m).base = m.base := by
  induction segments generalizing m with
  | nil => rfl
  | cons s segments ih => rw [foldl_cons, ih, base_placed]

/-- Pages of no segment are left alone. -/
theorem foldl_placed_of_not_hasPage (h : ∀ s ∈ segments, ¬ s.HasPage page) :
    (segments.foldl placed m).table page = m.table page ∧ ∀ i, i / 4096 = page →
        (segments.foldl placed m).bytes i = m.bytes i := by
  induction segments generalizing m with
  | nil => exact ⟨rfl, fun _ _ => rfl⟩
  | cons s segments ih =>
    have hs := h s mem_cons_self
    obtain ⟨htable, hbytes⟩ := @ih (m.placed s) fun t ht => h t (mem_cons_of_mem s ht)
    rw [foldl_cons]
    constructor
    · rw [htable, table_placed, if_neg hs]
    · intro i hi
      rw [hbytes i hi, bytes_placed_of_not_hasPage (by rw [hi]; exact hs)]

/-- A page of a segment is as that segment alone leaves it. -/
theorem foldl_placed_of_hasPage (hapart : segments.Pairwise Segment.Apart) (hs : s ∈ segments)
    (hpage : s.HasPage page) :
    (segments.foldl placed m).table page = (m.placed s).table page ∧ ∀ i, i / 4096 = page →
        (segments.foldl placed m).bytes i = (m.placed s).bytes i := by
  induction segments generalizing m with
  | nil => cases hs
  | cons t segments ih =>
    obtain ⟨hfirst, hrest⟩ := pairwise_cons.mp hapart
    rw [foldl_cons]
    rcases mem_cons.mp hs with rfl | hs
    · exact foldl_placed_of_not_hasPage fun u hu => hfirst u hu page hpage
    -- The first segment leaves a page of another one alone.
    have hother : ¬ t.HasPage page := fun ht => hfirst s hs page ht hpage
    obtain ⟨htable, hbytes⟩ := @ih (m.placed t) hrest hs
    constructor
    · rw [htable, table_placed, if_pos hpage, table_placed, if_pos hpage, entryOf, base_placed,
        entryOf]
    intro i hi
    have hold : (m.placed t).bytes i = m.bytes i :=
      bytes_placed_of_not_hasPage (by rw [hi]; exact hother)
    rw [hbytes i hi, bytes_placed (m.placed t), hold, bytes_placed m s]

end Segments

/-! ## The loaded arena -/

/-- Pages 384 to 399 hold the input and pages 416 to 479 the stack. -/
def IsInputPage (page : ℕ) : Prop :=
  inputOffset / 4096 ≤ page ∧ page < (inputOffset + inputBytes) / 4096

def IsStackPage (page : ℕ) : Prop :=
  stackOffset / 4096 ≤ page ∧ page < (stackOffset + stackBytes) / 4096

instance (page : ℕ) : Decidable (IsInputPage page) :=
  inferInstanceAs (Decidable (_ ∧ _))

instance (page : ℕ) : Decidable (IsStackPage page) :=
  inferInstanceAs (Decidable (_ ∧ _))

/-- What holds of an arena that an image and an input were loaded into. -/
structure Confined (image : ServiceImage elf.length) (input : Bytes)
    (m : ServiceMemory) (entry : ℕ) : Prop where
  /-- No page belongs to two segments. -/
  apart : image.segments.Pairwise Segment.Apart
  /-- Segment pages lie below the input area. -/
  below : ∀ s ∈ image.segments, ∀ page, s.HasPage page →
    page < inputOffset / 4096
  /-- Segment pages are mapped with the rights of the segment. -/
  rights : ∀ s ∈ image.segments, ∀ page, s.HasPage page →
    m.table page = m.entryOf (segmentFlags s.flags) page
  /-- No page is writable and executable. -/
  writeXorExecute : ∀ page, isWritable (m.table page) = true →
    isNoExecute (m.table page) = true
  /-- Nothing is mapped but segments, input and stack. -/
  unmapped : ∀ page, (∀ s ∈ image.segments, ¬ s.HasPage page) →
    ¬ IsInputPage page → ¬ IsStackPage page → m.table page = 0
  /-- The gaps behind input and stack are not mapped. -/
  gaps : ∀ page, (inputOffset + inputBytes) / 4096 ≤ page ∧
      page < stackOffset / 4096 ∨
    (stackOffset + stackBytes) / 4096 ≤ page → m.table page = 0
  /-- Segments hold the octets of the file, -/
  file : ∀ s ∈ image.segments, ∀ i < s.fileSize,
    elf[s.offset + i]? = some (m.bytes (s.start + i))
  /-- followed by zeros up to the end of their last page. -/
  zeros : ∀ s ∈ image.segments, ∀ i, s.fileSize ≤ i →
    i < pageCeil s.memorySize * 4096 → m.bytes (s.start + i) = 0
  /-- The entry lies in file-backed code. -/
  holds : ∃ s ∈ image.segments, Segment.HoldsEntry entry s

section Loaded

variable (base : ArenaBase) (image : ServiceImage elf.length)
variable (input : Bytes)

theorem table_loaded (page : ℕ) : (loaded base image input).table page =
      if IsStackPage page then
        (base.address + page * 4096) ||| pageFlags true false
      else if IsInputPage page then
        (base.address + page * 4096) ||| pageFlags false false
      else (image.segments.foldl placed (blank base)).table page := by
  have hbase : (image.segments.foldl placed (blank base)).base = base := base_foldl_placed
  have hinput : inputOffset / 4096 + pageCeil inputBytes =
      (inputOffset + inputBytes) / 4096 := by decide
  have hstack : stackOffset / 4096 + pageCeil stackBytes =
      (stackOffset + stackBytes) / 4096 := by decide
  rw [loaded, table_mapped, table_mapped, base_mapped, base_copied,
    table_copied, hbase, hinput, hstack]
  by_cases hstackPage : IsStackPage page
  · rw [if_pos hstackPage, if_pos (And.intro hstackPage.1 hstackPage.2)]
  rw [if_neg hstackPage, if_neg fun hin => hstackPage ⟨hin.1, hin.2⟩]
  by_cases hinputPage : IsInputPage page
  · rw [if_pos hinputPage, if_pos (And.intro hinputPage.1 hinputPage.2)]
  · rw [if_neg hinputPage, if_neg fun hin => hinputPage ⟨hin.1, hin.2⟩]

/-- Pages of segments are neither input nor stack. -/
theorem table_loaded_of_lt (h : page < inputOffset / 4096) : (loaded base image input).table page =
      (image.segments.foldl placed (blank base)).table page := by
  have hstack : ¬ IsStackPage page := fun hin => by
    have hle : inputOffset / 4096 ≤ stackOffset / 4096 := by decide
    exact absurd hin.1 (by omega)
  have hinput : ¬ IsInputPage page := fun hin => absurd hin.1 (by omega)
  rw [table_loaded, if_neg hstack, if_neg hinput]

theorem page_aligned (base : ArenaBase) (page : ℕ) : (base.address + page * 4096) % 4096 = 0 := by
  have haligned := base.aligned
  omega

variable {s : Segment elf.length}

/-- A segment page that is writable is not executable. -/
theorem segmentFlags_writeXorExecute {address : ℕ}
    (haligned : address % 4096 = 0) (h : isWritable (address ||| segmentFlags s.flags) = true) :
    isNoExecute (address ||| segmentFlags s.flags) = true := by
  rw [segmentFlags, isWritable_page haligned] at h
  rcases s.kind with hkind | hkind | hkind
  · rw [hkind] at h
    exact absurd h (by decide)
  · rw [hkind] at h
    exact absurd h (by decide)
  · rw [segmentFlags, hkind]
    exact isNoExecute_page address _

theorem loaded_writeXorExecute (page : ℕ)
    (h : isWritable ((loaded base image input).table page) = true) :
    isNoExecute ((loaded base image input).table page) = true := by
  rw [table_loaded] at h ⊢
  split at h
  · next hstack =>
      rw [if_pos hstack]
      exact isNoExecute_page _ true
  rename_i hstack
  rw [if_neg hstack]
  split at h
  · next hinput =>
      rw [if_pos hinput]
      exact isNoExecute_page _ false
  rename_i hinput
  rw [if_neg hinput]
  by_cases hsegment : ∃ s ∈ image.segments, s.HasPage page
  · obtain ⟨s, hs, hpage⟩ := hsegment
    rw [(foldl_placed_of_hasPage image.apart hs hpage).1, table_placed, if_pos hpage] at h ⊢
    exact segmentFlags_writeXorExecute (page_aligned base page) h
  · have hnone : ∀ s ∈ image.segments, ¬ s.HasPage page := fun s hs hpage => hsegment ⟨s, hs, hpage⟩
    rw [(foldl_placed_of_not_hasPage hnone).1] at h
    exact absurd h (by decide : ¬ isWritable 0 = true)

theorem loaded_unmapped (hsegments : ∀ s ∈ image.segments, ¬ s.HasPage page)
    (hinput : ¬ IsInputPage page) (hstack : ¬ IsStackPage page) :
    (loaded base image input).table page = 0 := by
  rw [table_loaded, if_neg hstack, if_neg hinput, (foldl_placed_of_not_hasPage hsegments).1]
  rfl

/-- The octets of a segment's pages. -/
theorem bytes_loaded_of_segment (hs : s ∈ image.segments) {i : ℕ}
    (hi : i < pageCeil s.memorySize * 4096) : (loaded base image input).bytes (s.start + i) =
      if i < s.fileSize then elf.getD (s.offset + i) 0 else 0 := by
  have hmod := s.start_mod
  have hpage : s.HasPage ((s.start + i) / 4096) := by
    constructor <;> omega
  have hbelow := hpage.lt
  rw [loaded, bytes_mapped, bytes_mapped, bytes_copied, if_neg (by omega),
    (foldl_placed_of_hasPage image.apart hs hpage).2 _ rfl, bytes_placed,
    Nat.add_sub_cancel_left]
  by_cases hfile : i < s.fileSize
  · rw [if_pos hfile, if_pos ⟨Nat.le_add_right _ _, by omega⟩]
  · rw [if_neg hfile, if_neg (by omega)]
    rfl

theorem loaded_confined : Confined image input (loaded base image input) image.entry := by
  refine ⟨image.apart, fun s _ page hpage => hpage.lt, ?_, loaded_writeXorExecute base image input,
    fun page => loaded_unmapped base image input, ?_, ?_, ?_, image.holds⟩
  · intro s hs page hpage
    have hbase : (loaded base image input).base = base := base_foldl_placed
    rw [table_loaded_of_lt base image input hpage.lt,
      (foldl_placed_of_hasPage image.apart hs hpage).1, table_placed,
      if_pos hpage, entryOf, entryOf, hbase]
    rfl
  · intro page hgap
    have hnot : ∀ s ∈ image.segments, ¬ s.HasPage page := by
      intro s _ hpage
      have hlt := hpage.lt
      unfold inputOffset inputBytes stackOffset stackBytes at *
      omega
    apply loaded_unmapped base image input hnot
    · rintro ⟨hlow, hhigh⟩
      unfold inputOffset inputBytes stackOffset stackBytes at *
      omega
    · rintro ⟨hlow, hhigh⟩
      unfold inputOffset inputBytes stackOffset stackBytes at *
      omega
  · intro s hs i hi
    have hround := le_pageCeil_mul s.memorySize
    have hfile := s.file_le
    have hwithin := s.within
    rw [bytes_loaded_of_segment base image input hs (by omega), if_pos hi,
      getD_eq_getElem?_getD, List.getElem?_eq_getElem (by omega),
      getD_some]
  · intro s hs i hfile hi
    rw [bytes_loaded_of_segment base image input hs hi, if_neg (by omega)]

end Loaded

/-! ## Writable ranges -/

/-- Every octet of a user range lies in a page of the arena that is present,
user, writable and not executable. -/
def WritableRange (m : ServiceMemory) (userAddress length : ℕ) : Prop :=
  serviceBase ≤ userAddress ∧
    ∀ i, userAddress ≤ i → i < userAddress + length →
      (i - serviceBase) / 4096 < 512 ∧
      isPresent (m.table ((i - serviceBase) / 4096)) = true ∧
      isUser (m.table ((i - serviceBase) / 4096)) = true ∧
      isWritable (m.table ((i - serviceBase) / 4096)) = true ∧
      isNoExecute (m.table ((i - serviceBase) / 4096)) = true

theorem allWritable_eq {first count : ℕ} (h : first + count ≤ 512) :
    ∃ writable, m.allWritable first count = .done writable ∧
      (writable = true → ∀ page, first ≤ page → page < first + count →
        m.table page &&& requiredFlags = requiredFlags) := by
  -- Once a page was refused the rest of the loop changes nothing.
  have hrefused : ∀ count first : ℕ, (List.range' first count).foldlM (fun writable page =>
        if writable = false then .done false
        else if 512 ≤ page then (.halt : Outcome ServiceError Bool)
        else .done (m.table page &&& requiredFlags == requiredFlags)) false = .done false := by
    intro count
    induction count with
    | zero => exact fun _ => rfl
    | succ count ih =>
      intro first
      exact ih (first + 1)
  induction count generalizing first with
  | zero =>
    exact ⟨true, rfl, fun _ page hlow hhigh => absurd hlow (by omega)⟩
  | succ count ih =>
    rw [allWritable, range'_succ, foldlM_cons, if_neg (by decide), if_neg (by omega)]
    by_cases hfirst : m.table first &&& requiredFlags = requiredFlags
    · obtain ⟨writable, hdone, hall⟩ := @ih (first + 1) (by omega)
      rw [beq_iff_eq.mpr hfirst]
      refine ⟨writable, hdone, fun hwritable page hlow hhigh => ?_⟩
      by_cases hpage : page = first
      · rw [hpage]
        exact hfirst
      · exact hall hwritable page (by omega) (by omega)
    · rw [beq_eq_false_iff_ne.mpr hfirst]
      exact ⟨false, hrefused count (first + 1), fun hfalse => by
        cases hfalse⟩

theorem writableRange_spec {limit : ℕ} (hlimit : limit ≤ memoryBytes)
    (m : ServiceMemory) (userAddress length : ℕ) :
    m.writableRange limit userAddress length ≠ .halt ∧
      ∀ address, m.writableRange limit userAddress length = .done (some address) →
        address = m.base.address + (userAddress - serviceBase) ∧
          m.WritableRange userAddress length := by
  have hbytes : memoryBytes = 512 * 4096 := by decide
  unfold writableRange
  split
  · exact ⟨by simp, by simp⟩
  rename_i hbase
  dsimp only
  split
  · exact ⟨by simp, by simp⟩
  split
  · exact ⟨by simp, by simp⟩
  have hceil := pageCeil_mul_lt (userAddress - serviceBase + length)
  obtain ⟨writable, hdone, hall⟩ := m.allWritable_eq
    (by omega : (userAddress - serviceBase) / 4096 +
      (pageCeil (userAddress - serviceBase + length) - (userAddress - serviceBase) / 4096) ≤ 512)
  rw [hdone, done_bind]
  by_cases hwritable : writable = true
  · rw [if_pos hwritable]
    refine ⟨by simp, fun address haddress => ?_⟩
    have hsame := Option.some.inj (Outcome.done.inj haddress)
    refine ⟨hsame.symm, Nat.not_lt.mp hbase, fun i hlow hhigh => ?_⟩
    have hround := le_pageCeil_mul (userAddress - serviceBase + length)
    have hmask := hall hwritable ((i - serviceBase) / 4096) (by omega) (by omega)
    exact ⟨by omega, testBit_of_mask hmask (by decide), testBit_of_mask hmask (by decide),
      testBit_of_mask hmask (by decide),
      testBit_of_mask hmask (by decide)⟩
  · rw [if_neg hwritable]
    exact ⟨by simp, by simp⟩

/-- Whatever the file and the input, loading stays inside its arrays, what it
leaves is confined, and only writable user pages are handed out as writable
ranges. -/
theorem load_confined (allocated : Option ArenaBase) (elf input : Bytes) :
    load allocated elf input ≠ .halt ∧ ∀ m entry, load allocated elf input = .done (m, entry) →
        (∃ image, ServiceImage.parse elf = .done image ∧ Confined image input m entry) ∧
        ∀ userAddress length, (m.writablePhysicalRange userAddress length ≠ .halt ∧
            ∀ address, m.writablePhysicalRange userAddress length =
              .done (some address) → m.WritableRange userAddress length) ∧
          (m.writableAliasRange userAddress length ≠ .halt ∧
            ∀ address, m.writableAliasRange userAddress length =
              .done (some address) → m.WritableRange userAddress length) := by
  rcases load_cases allocated elf input with
    ⟨failure, hfail⟩ | ⟨base, image, -, -, hparse, hdone⟩
  · rw [hfail]
    constructor
    · intro h
      cases h
    · intro m entry h
      cases h
  · rw [hdone]
    constructor
    · intro h
      cases h
    intro m entry h
    obtain ⟨rfl, rfl⟩ := Prod.mk.inj (Outcome.done.inj h)
    refine ⟨⟨image, hparse, loaded_confined base image input⟩, ?_⟩
    generalize loaded base image input = m
    intro userAddress length
    have hinput : inputOffset ≤ memoryBytes := by decide
    have hphysical := writableRange_spec hinput m userAddress length
    have halias := writableRange_spec (le_refl memoryBytes) m userAddress length
    exact ⟨⟨hphysical.1, fun address h => (hphysical.2 address h).2⟩,
      ⟨halias.1, fun address h => (halias.2 address h).2⟩⟩

/-- One executable segment of two octets, and the stack segment that compilers
add, which is not loadable. -/
def tinyElf : Bytes :=
  [0x7F, 0x45, 0x4C, 0x46, 2, 1, 1] ++ List.replicate 9 0 ++ [2, 0, 62, 0] ++
    Bytes.toLeBytes 4 1 ++ Bytes.toLeBytes 8 serviceBase ++
    Bytes.toLeBytes 8 64 ++ List.replicate 14 0 ++ Bytes.toLeBytes 2 56 ++
    Bytes.toLeBytes 2 2 ++ List.replicate 6 0 ++
    (Bytes.toLeBytes 4 1 ++ Bytes.toLeBytes 4 5 ++ Bytes.toLeBytes 8 176 ++
      Bytes.toLeBytes 8 serviceBase ++ Bytes.toLeBytes 8 serviceBase ++
      Bytes.toLeBytes 8 2 ++ Bytes.toLeBytes 8 2 ++
      Bytes.toLeBytes 8 4096) ++
    (Bytes.toLeBytes 4 7 ++ List.replicate 52 0) ++ [0x0F, 0x0B]

def tinyBase : ArenaBase := ⟨4096, by decide, by decide⟩

theorem tinyElf_confined : ∃ m, load (some tinyBase) tinyElf [7] = .done (m, serviceBase) ∧
      (∃ image, ServiceImage.parse tinyElf = .done image ∧ Confined image [7] m serviceBase) ∧
      ∀ userAddress length, (m.writablePhysicalRange userAddress length ≠ .halt ∧
          ∀ address, m.writablePhysicalRange userAddress length =
            .done (some address) → m.WritableRange userAddress length) ∧
        (m.writableAliasRange userAddress length ≠ .halt ∧
          ∀ address, m.writableAliasRange userAddress length =
            .done (some address) → m.WritableRange userAddress length) := by
  have hentry : (load (some tinyBase) tinyElf [7]).toOption.map Prod.snd =
      some serviceBase := by decide +kernel
  obtain ⟨⟨m, entry⟩, hload, hsnd⟩ := map_eq_some_iff.mp hentry
  rw [toOption_eq_some] at hload
  obtain rfl : entry = serviceBase := hsnd
  exact ⟨m, hload, (load_confined (some tinyBase) tinyElf [7]).2 m _ hload⟩

end ServiceMemory

end ExpOS
