import ExpOS.Support.Pages

/-!
# ELF images of isolated services

A service is an ELF image with at most eight program headers.  Each loadable
header names a part of the file and a page-aligned range of a private arena
below the input area; the parser refuses headers whose pages overlap and an
entry point outside the file-backed part of executable code.

All header fields are 64-bit values of the file.  Sums, slices and the table
of segments halt where they would overflow or be left, and the parser never
halts.
-/

namespace ExpOS

open Outcome

def serviceBase : ℕ := 0x400000200000
def memoryBytes : ℕ := 2 * 1024 * 1024
def inputOffset : ℕ := 0x180000
def inputBytes : ℕ := 64 * 1024
def stackOffset : ℕ := 0x1a0000
def stackBytes : ℕ := 256 * 1024

/-- The places of an image's segment table. -/
def segmentPlaces : ℕ := 8

inductive ServiceError where
  | invalidImage
  | inputTooLarge
  | noMemory
deriving DecidableEq

/-- A program header as it stands in the file. -/
structure ProgramHeader where
  flags : ℕ
  offset : ℕ
  address : ℕ
  fileSize : ℕ
  memorySize : ℕ

/-- A header of a file of `fileLength` octets that is accepted by itself. -/
structure Segment (fileLength : ℕ) extends ProgramHeader where
  kind : flags = 4 ∨ flags = 5 ∨ flags = 6
  base_le : serviceBase ≤ address
  aligned : address % 4096 = 0
  end_le : address + memorySize ≤ serviceBase + inputOffset
  file_le : fileSize ≤ memorySize
  fits : offset + fileSize < usizeLimit
  within : offset + fileSize ≤ fileLength

namespace Segment

variable {fileLength : ℕ}

/-- The place of a segment in the arena. -/
def start (s : Segment fileLength) : ℕ := s.address - serviceBase

/-- The page of the arena belongs to the segment. -/
def HasPage (s : Segment fileLength) (page : ℕ) : Prop :=
  s.start / 4096 ≤ page ∧ page < s.start / 4096 + pageCeil s.memorySize

instance (s : Segment fileLength) (page : ℕ) : Decidable (s.HasPage page) :=
  inferInstanceAs (Decidable (_ ∧ _))

/-- No page belongs to both segments. -/
def Apart (s t : Segment fileLength) : Prop :=
  ∀ page, s.HasPage page → ¬ t.HasPage page

/-- The entry lies in the file-backed part of executable code. -/
def HoldsEntry (entry : ℕ) (s : Segment fileLength) : Prop :=
  s.flags = 5 ∧ s.address ≤ entry ∧ entry < s.address + s.fileSize

theorem start_mod (s : Segment fileLength) : s.start % 4096 = 0 := by
  have haligned := s.aligned
  unfold start serviceBase at *
  omega

theorem start_add_le (s : Segment fileLength) : s.start + s.memorySize ≤ inputOffset := by
  have hbase := s.base_le
  have hend := s.end_le
  unfold start
  omega

/-- Every page of a segment lies below the input area. -/
theorem HasPage.lt {s : Segment fileLength} {page : ℕ} (h : s.HasPage page) :
    page < inputOffset / 4096 := by
  have hend := s.start_add_le
  obtain ⟨hlow, hhigh⟩ := h
  have hpage : page - s.start / 4096 < pageCeil s.memorySize := by omega
  rw [lt_pageCeil_iff] at hpage
  unfold inputOffset at *
  omega

end Segment

/-- The segments read so far. -/
structure Draft (fileLength entry : ℕ) where
  segments : List (Segment fileLength)
  executableEntry : Bool
  apart : segments.Pairwise Segment.Apart
  holds : executableEntry = true →
    ∃ s ∈ segments, Segment.HoldsEntry entry s

structure ServiceImage (fileLength : ℕ) where
  entry : ℕ
  segments : List (Segment fileLength)
  apart : segments.Pairwise Segment.Apart
  holds : ∃ s ∈ segments, Segment.HoldsEntry entry s

namespace ServiceImage

variable {fileLength entry : ℕ}

/-- A number of octets rounded up to whole pages. -/
def roundUp (n : ℕ) : Outcome ServiceError ℕ :=
  if pageCeil n * 4096 < usizeLimit then .done (pageCeil n * 4096) else .halt

theorem roundUp_eq {n : ℕ} (h : n + 4096 ≤ usizeLimit) : roundUp n = .done (pageCeil n * 4096) := by
  have hlt := pageCeil_mul_lt n
  exact if_pos (by omega)

/-- The header's pages overlap those of an earlier segment. -/
def overlapsAny (header : ProgramHeader) : List (Segment fileLength) → Outcome ServiceError Bool
  | [] => .done false
  | previous :: rest => do
      let size ← roundUp previous.memorySize
      let previousEnd ← Outcome.addBelow usizeLimit previous.address size
      let headerEnd ← roundUp (header.address + header.memorySize)
      if header.address < previousEnd ∧ previous.address < headerEnd then
        .done true
      else overlapsAny header rest

/-- What is asked of a header apart from its neighbours. -/
structure Accepts (fileLength : ℕ) (header : ProgramHeader) : Prop where
  kind : header.flags = 4 ∨ header.flags = 5 ∨ header.flags = 6
  base_le : serviceBase ≤ header.address
  aligned : header.address % 4096 = 0
  end_le : header.address + header.memorySize ≤ serviceBase + inputOffset
  file_le : header.fileSize ≤ header.memorySize
  fits : header.offset + header.fileSize < usizeLimit
  within : header.offset + header.fileSize ≤ fileLength

instance (fileLength : ℕ) (header : ProgramHeader) : Decidable (Accepts fileLength header) :=
  decidable_of_iff
    ((header.flags = 4 ∨ header.flags = 5 ∨ header.flags = 6) ∧
      serviceBase ≤ header.address ∧ header.address % 4096 = 0 ∧
      header.address + header.memorySize ≤ serviceBase + inputOffset ∧
      header.fileSize ≤ header.memorySize ∧
      header.offset + header.fileSize < usizeLimit ∧
      header.offset + header.fileSize ≤ fileLength)
    ⟨fun ⟨h₁, h₂, h₃, h₄, h₅, h₆, h₇⟩ => ⟨h₁, h₂, h₃, h₄, h₅, h₆, h₇⟩,
      fun ⟨h₁, h₂, h₃, h₄, h₅, h₆, h₇⟩ => ⟨h₁, h₂, h₃, h₄, h₅, h₆, h₇⟩⟩

variable {header : ProgramHeader}

def Accepts.segment (h : Accepts fileLength header) : Segment fileLength :=
  { header with
    kind := h.kind, base_le := h.base_le, aligned := h.aligned
    end_le := h.end_le, file_le := h.file_le, fits := h.fits
    within := h.within }

section

variable (h : Accepts fileLength header)
include h

theorem accepts_end_lt :
    header.address + header.memorySize + 4096 ≤ usizeLimit := by
  have hend := h.end_le
  have hlimit : usizeLimit = 18446744073709551616 := by decide
  unfold serviceBase inputOffset at hend
  omega

/-- The rounded ranges that the parser compares. -/
theorem overlapsAny_cons (previous : Segment fileLength)
    (rest : List (Segment fileLength)) : overlapsAny header (previous :: rest) =
      if header.address <
            previous.address + pageCeil previous.memorySize * 4096 ∧
          previous.address < pageCeil (header.address + header.memorySize) * 4096 then
        .done true
      else overlapsAny header rest := by
  have hend := accepts_end_lt h
  have hprevious := previous.end_le
  have hlimit : usizeLimit = 18446744073709551616 := by decide
  have hround := pageCeil_mul_lt previous.memorySize
  unfold serviceBase inputOffset at hprevious
  rw [overlapsAny, roundUp_eq (by omega), done_bind,
    addBelow_eq (by omega), done_bind, roundUp_eq hend,
    done_bind]

/-- Segments that pass the comparison share no page. -/
theorem apart_of_not_overlap {previous : Segment fileLength}
    (hno : ¬ (header.address < previous.address + pageCeil previous.memorySize * 4096 ∧
        previous.address < pageCeil (header.address + header.memorySize) * 4096)) :
    Segment.Apart previous h.segment := by
  rintro page ⟨hlow, hhigh⟩ ⟨hlow', hhigh'⟩
  have hbase := previous.base_le
  have hbase' := h.base_le
  have haligned' := h.aligned
  rw [pageCeil_add haligned'] at hno
  change (header.address - serviceBase) / 4096 ≤ page at hlow'
  change page < (header.address - serviceBase) / 4096 + pageCeil header.memorySize at hhigh'
  unfold Segment.start at hlow hhigh
  omega

theorem apart_of_overlapsAny {segments : List (Segment fileLength)}
    (hno : overlapsAny header segments = .done false) :
    ∀ s ∈ segments, Segment.Apart s h.segment := by
  induction segments with
  | nil => simp
  | cons previous rest ih =>
    rw [overlapsAny_cons h] at hno
    split at hno
    · cases hno
    rename_i hapart
    intro s hs
    rcases List.mem_cons.mp hs with rfl | hs
    · exact apart_of_not_overlap h hapart
    · exact ih hno s hs

theorem overlapsAny_ne_halt (segments : List (Segment fileLength)) :
    overlapsAny header segments ≠ .halt ∧
      ∀ failure, overlapsAny header segments ≠ .fail failure := by
  induction segments with
  | nil =>
    constructor
    · intro hnil
      cases hnil
    · intro failure hnil
      cases hnil
  | cons previous rest ih =>
    rw [overlapsAny_cons h]
    split
    · constructor
      · intro hdone
        cases hdone
      · intro failure hdone
        cases hdone
    · exact ih

end

/-- The entry lies in the header's file-backed code. -/
def containsEntry (entry : ℕ) (header : ProgramHeader) : Outcome ServiceError Bool :=
  if header.flags = 5 then do
    let fileEnd ← Outcome.addBelow usizeLimit header.address header.fileSize
    .done (decide (header.address ≤ entry ∧ entry < fileEnd))
  else .done false

theorem containsEntry_eq (h : Accepts fileLength header) (entry : ℕ) :
    containsEntry entry header = .done (decide (header.flags = 5 ∧ header.address ≤ entry ∧
        entry < header.address + header.fileSize)) := by
  have hend := accepts_end_lt h
  have hfile := h.file_le
  unfold containsEntry
  split
  · next hflags =>
      rw [addBelow_eq (by omega)]
      simp [hflags]
  · next hflags => simp [hflags]

def Draft.start (fileLength entry : ℕ) : Draft fileLength entry :=
  ⟨[], false, List.Pairwise.nil, by simp⟩

/-- Add a segment that shares no page with the earlier ones. -/
def pushSegment (draft : Draft fileLength entry) (segment : Segment fileLength)
    (hapart : ∀ s ∈ draft.segments, Segment.Apart s segment) (holds : Bool)
    (hholds : holds = true → Segment.HoldsEntry entry segment) : Draft fileLength entry where
  segments := draft.segments ++ [segment]
  executableEntry := draft.executableEntry || holds
  apart := List.pairwise_append.mpr ⟨draft.apart, by simp, by simpa⟩
  holds := by
    intro hentry
    rcases Bool.or_eq_true_iff.mp hentry with hold | hnew
    · obtain ⟨s, hs, hsentry⟩ := draft.holds hold
      exact ⟨s, List.mem_append_left _ hs, hsentry⟩
    · exact ⟨segment, by simp, hholds hnew⟩

/-- One loadable header, for a place of the segment table. -/
def addSegment (draft : Draft fileLength entry) (place : ℕ) (header : ProgramHeader) :
    Outcome ServiceError (Draft fileLength entry) :=
  if header.memorySize = 0 then .done draft
  else if usizeLimit ≤ header.address + header.memorySize then
    .fail .invalidImage
  else if h : Accepts fileLength header then
    match hoverlap : overlapsAny header draft.segments with
    | .halt => .halt
    | .fail failure => .fail failure
    | .done true => .fail .invalidImage
    | .done false =>
      match hcontains : containsEntry entry header with
      | .halt => .halt
      | .fail failure => .fail failure
      | .done holds =>
        if segmentPlaces ≤ place then .halt
        else .done (pushSegment draft h.segment
          (apart_of_overlapsAny h hoverlap) holds (by
            rintro rfl
            rw [containsEntry_eq h] at hcontains
            have hdecided := Outcome.done.inj hcontains
            rw [decide_eq_true_eq] at hdecided
            exact hdecided))
  else .fail .invalidImage

theorem addSegment_ne_halt (draft : Draft fileLength entry) {place : ℕ}
    (hplace : place < segmentPlaces) (header : ProgramHeader) :
    addSegment draft place header ≠ .halt := by
  intro hhalt
  unfold addSegment at hhalt
  split at hhalt
  · cases hhalt
  split at hhalt
  · cases hhalt
  split at hhalt
  · next haccepts =>
      split at hhalt
      · next hoverlap =>
          exact (overlapsAny_ne_halt haccepts _).1 hoverlap
      · cases hhalt
      · cases hhalt
      split at hhalt
      · next hcontains =>
          rw [containsEntry_eq haccepts] at hcontains
          cases hcontains
      · cases hhalt
      · rw [if_neg (Nat.not_le.mpr hplace)] at hhalt
        cases hhalt
  · cases hhalt

def readHeader (octets : Bytes) (place : ℕ) : Outcome ServiceError ProgramHeader := do
  let flags ← readWord octets (place + 4) 4
  let offset ← readWord octets (place + 8) 8
  let address ← readWord octets (place + 16) 8
  let fileSize ← readWord octets (place + 32) 8
  let memorySize ← readWord octets (place + 40) 8
  .done { flags, offset, address, fileSize, memorySize }

/-- One program header; those that are not loadable are skipped. -/
def addHeader (octets : Bytes) (table : ℕ) (draft : Draft octets.length entry) (index : ℕ) :
    Outcome ServiceError (Draft octets.length entry) := do
  let place ← Outcome.addBelow usizeLimit table (index * 56)
  let kind ← slice octets place 4
  if kind ≠ [1, 0, 0, 0] then .done draft
  else do
    let header ← readHeader octets place
    addSegment draft index header

variable {octets : Bytes}

theorem readHeader_ne_halt {place : ℕ}
    (h : place + 56 ≤ octets.length) (hlimit : place + 56 < usizeLimit) :
    readHeader octets place ≠ .halt := by
  rw [readHeader, readWord_eq (by omega) (by omega), readWord_eq (by omega) (by omega),
    readWord_eq (by omega) (by omega), readWord_eq (by omega) (by omega),
    readWord_eq (by omega) (by omega)]
  intro hdone
  cases hdone

theorem addHeader_ne_halt {table count index : ℕ} (hplaces : count ≤ segmentPlaces)
    (hcount : table + count * 56 ≤ octets.length) (hlimit : table + count * 56 < usizeLimit)
    (hindex : index < count) (draft : Draft octets.length entry) :
    addHeader octets table draft index ≠ .halt := by
  rw [addHeader, addBelow_eq (by omega), done_bind, slice_eq (by omega) (by omega), done_bind]
  split
  · intro hdone
    cases hdone
  · exact bind_ne_halt (readHeader_ne_halt (by omega) (by omega))
      fun header _ => addSegment_ne_halt draft (by omega) header

/-- The image is complete once some code holds its entry. -/
def finish (draft : Draft fileLength entry) : Outcome ServiceError (ServiceImage fileLength) :=
  if h : draft.executableEntry = true then
    .done ⟨entry, draft.segments, draft.apart, draft.holds h⟩
  else .fail .invalidImage

/-- Magic, class, byte order and version; type and machine. -/
def isElf (octets : Bytes) : Bool :=
  decide (64 ≤ octets.length) &&
    octets.take 7 == [0x7F, 0x45, 0x4C, 0x46, 2, 1, 1] &&
    (octets.drop 16).take 4 == [2, 0, 62, 0]

def parse (octets : Bytes) : Outcome ServiceError (ServiceImage octets.length) :=
  if isElf octets = false then .fail .invalidImage
  else do
    let table ← readWord octets 32 8
    let count ← readWord octets 56 2
    let headerSize ← readWord octets 54 2
    if headerSize ≠ 56 ∨ count = 0 ∨ 8 < count ∨
        usizeLimit ≤ table + count * 56 ∨
        octets.length < table + count * 56 then
      .fail .invalidImage
    else do
      let entry ← readWord octets 24 8
      let draft ← (List.range count).foldlM (addHeader octets table)
        (Draft.start octets.length entry)
      finish draft

/-- Whatever the file, the parser stays inside it. -/
theorem parse_ne_halt (octets : Bytes) : parse octets ≠ .halt := by
  unfold parse
  split
  · intro hfail
    cases hfail
  rename_i helf
  have hlength : 64 ≤ octets.length := by
    simp only [isElf, Bool.and_eq_false_iff, not_or, Bool.not_eq_false, decide_eq_true_eq] at helf
    exact helf.1.1
  have hlimit : usizeLimit = 18446744073709551616 := by decide
  rw [readWord_eq (by omega) (by omega), done_bind, readWord_eq (by omega) (by omega), done_bind,
    readWord_eq (by omega) (by omega), done_bind]
  split
  · intro hfail
    cases hfail
  rename_i hheaders
  simp only [not_or, not_le, not_lt] at hheaders
  rw [readWord_eq (by omega) (by omega), done_bind]
  refine bind_ne_halt ?_ fun draft _ => ?_
  · refine foldlM_ne_halt (fun draft index hindex => ?_) _
    exact addHeader_ne_halt hheaders.2.2.1 hheaders.2.2.2.2 hheaders.2.2.2.1
      (List.mem_range.mp hindex) draft
  unfold finish
  split
  · intro hdone
    cases hdone
  · intro hfail
    cases hfail

end ServiceImage

end ExpOS
