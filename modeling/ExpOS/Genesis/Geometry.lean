import ExpOS.Store.Runtime

/-!
# The layout of an installed disk

The EFI partition holds a reserved area, two file allocation tables and the
data clusters.  The size of a table depends on the number of clusters and the
number of clusters on the size of a table; the installer looks for a size that
reproduces itself by computing one from the other over and over.

With `x` sectors to share, a table of `n` sectors asks for one of
`⌈(x - 2n) / 128⌉` sectors.  This has a fixed point unless `x` leaves one or
two sectors modulo 130, and where it has one the search finds it.
-/

namespace ExpOS

inductive GenesisError where
  | diskTooSmall
  | payloadTooLarge
  | verificationFailed
  | storage (error : StorageError)

def efiPartitionStart : ℕ := 2048
def fatReservedSectors : ℕ := 32
def fatCount : ℕ := 2
def fat32MinClusters : ℕ := 65525
def directoryClusters : ℕ := 3

structure FatGeometry where
  totalSectors : ℕ
  partitionStart : ℕ
  partitionSectors : ℕ
  fatSectors : ℕ
  clusters : ℕ
  fileClusters : ℕ

namespace FatGeometry

/-- The sectors of a table for a number of clusters. -/
def requiredSectors (data : ℕ) : ℕ :=
  ((data + 2) * 4 + 511) / 512

/-- The search for the size of a table, for a number of rounds.  The product
is computed in 32 bits and an overflow stops the machine. -/
def fatLoop (partitionSectors : ℕ) : ℕ → ℕ → Option (Outcome GenesisError (ℕ × ℕ))
  | 0, _ => none
  | fuel + 1, fatSectors =>
    if partitionSectors < fatReservedSectors + fatCount * fatSectors then
      some (.fail .diskTooSmall)
    else
      let data := partitionSectors - (fatReservedSectors + fatCount * fatSectors)
      if (data + 2) * 4 ≥ 2 ^ 32 then some .halt
      else if requiredSectors data = fatSectors then
        some (.done (fatSectors, data))
      else fatLoop partitionSectors fuel (requiredSectors data)

/-- The number of clusters of a file, narrowed to 32 bits. -/
def fileClusterCount (fileBytes : ℕ) : ℕ :=
  (fileBytes + 511) / 512 % 2 ^ 32

/-- The layout of a disk, or none if the search did not end in `fuel`
rounds. -/
def new (fuel totalSectors fileBytes : ℕ) : Option (Outcome GenesisError FatGeometry) :=
  if totalSectors ≤ efiPartitionStart + 34 then
    some (.fail .diskTooSmall)
  else
    let partitionSectors := totalSectors - efiPartitionStart - 33
    (fatLoop partitionSectors fuel 1).map fun found => do
      let (fatSectors, clusters) ← found
      if clusters < fat32MinClusters then .fail .diskTooSmall
      else
        let fileClusters := fileClusterCount fileBytes
        if fileClusters + directoryClusters ≥ 2 ^ 32 then .halt
        else if fileClusters + directoryClusters > clusters then
          .fail .payloadTooLarge
        else
          .done ⟨totalSectors, efiPartitionStart, partitionSectors,
            fatSectors, clusters, fileClusters⟩

/-! ## The search -/

section Search

variable {sectors : ℕ}

/-- The next size the search tries. -/
def nextSize (sectors size : ℕ) : ℕ :=
  requiredSectors (sectors - (fatReservedSectors + fatCount * size))

/-- The size leaves room for the data. -/
def Fits (sectors size : ℕ) : Prop :=
  1 ≤ size ∧ 32 + 2 * size ≤ sectors

variable {size : ℕ}

theorem nextSize_eq (h : Fits sectors size) :
    nextSize sectors size = (sectors - 30 - 2 * size + 127) / 128 := by
  obtain ⟨-, hle⟩ := h
  simp only [nextSize, requiredSectors, fatReservedSectors, fatCount]
  omega

theorem Fits.next (h : Fits sectors size) (hroom : 34 ≤ sectors) :
    Fits sectors (nextSize sectors size) := by
  rw [nextSize_eq h]
  obtain ⟨hpos, hle⟩ := h
  constructor
  · omega
  · omega

/-- One round of the search. -/
theorem fatLoop_succ (h : Fits sectors size) (hsectors : sectors < 2 ^ 30) (fuel : ℕ) :
    fatLoop sectors (fuel + 1) size =
      if nextSize sectors size = size then
        some (.done (size, sectors - (32 + 2 * size)))
      else fatLoop sectors fuel (nextSize sectors size) := by
  have hroom : ¬ sectors < fatReservedSectors + fatCount * size := Nat.not_lt.mpr h.2
  have hsmall : ¬ (sectors - (fatReservedSectors + fatCount * size) + 2) * 4 ≥ 2 ^ 32 := by
    change ¬ (sectors - (32 + 2 * size) + 2) * 4 ≥ 2 ^ 32
    omega
  rw [fatLoop, if_neg hroom]
  rw [if_neg hsmall]
  rfl

/-- The sizes that reproduce themselves. -/
theorem nextSize_eq_self_iff (h : Fits sectors size) : nextSize sectors size = size ↔
      130 * size < sectors - 30 + 128 ∧ sectors - 30 ≤ 130 * size := by
  rw [nextSize_eq h]
  obtain ⟨hpos, hle⟩ := h
  omega

/-- The number of sectors leaves a gap between the sizes. -/
def Gap (sectors : ℕ) : Prop :=
  (sectors - 30) % 130 = 1 ∨ (sectors - 30) % 130 = 2

/-- In a gap the search goes on for ever. -/
theorem fatLoop_gap (hgap : Gap sectors) (hroom : 34 ≤ sectors)
    (hsectors : sectors < 2 ^ 30) (fuel : ℕ)
    (h : Fits sectors size) : fatLoop sectors fuel size = none := by
  induction fuel generalizing size with
  | zero => rfl
  | succ fuel ih =>
    rw [fatLoop_succ h hsectors, if_neg]
    · exact ih (h.next hroom)
    rw [nextSize_eq_self_iff h]
    rintro ⟨hlow, hhigh⟩
    rcases hgap with hgap | hgap
    · omega
    · omega

/-- The size that reproduces itself, if there is one. -/
def fixedSize (sectors : ℕ) : ℕ :=
  (sectors - 30 + 129) / 130

theorem fixedSize_spec (hgap : ¬ Gap sectors) (hroom : 34 ≤ sectors) :
    Fits sectors (fixedSize sectors) ∧
      nextSize sectors (fixedSize sectors) = fixedSize sectors := by
  have hfits : Fits sectors (fixedSize sectors) := by
    rw [fixedSize]
    constructor
    · omega
    · omega
  refine ⟨hfits, (nextSize_eq_self_iff hfits).mpr ?_⟩
  rw [Gap] at hgap
  rw [fixedSize]
  omega

theorem eq_fixedSize (h : Fits sectors size)
    (hself : nextSize sectors size = size) : size = fixedSize sectors := by
  obtain ⟨hlow, hhigh⟩ := (nextSize_eq_self_iff h).mp hself
  rw [fixedSize]
  omega

/-- What the search returns is the fixed point. -/
theorem fatLoop_result (hroom : 34 ≤ sectors) (hsectors : sectors < 2 ^ 30)
    {fuel : ℕ} (h : Fits sectors size)
    {result : Outcome GenesisError (ℕ × ℕ)} (hresult : fatLoop sectors fuel size = some result) :
    result = .done (fixedSize sectors, sectors - (32 + 2 * fixedSize sectors)) := by
  induction fuel generalizing size with
  | zero => cases hresult
  | succ fuel ih =>
    rw [fatLoop_succ h hsectors] at hresult
    split at hresult
    · next hself =>
        rw [← eq_fixedSize h hself]
        exact (Option.some.inj hresult).symm
    · exact ih (h.next hroom) hresult

/-- How far a size is from the fixed point. -/
def distance (sectors size : ℕ) : ℕ :=
  (size - fixedSize sectors) + (fixedSize sectors - size)

/-- A round brings the size closer to the fixed point, unless it is next to
it; then the fixed point is at most two rounds away. -/
theorem nextSize_closer (hgap : ¬ Gap sectors) (hroom : 34 ≤ sectors) (h : Fits sectors size) :
    distance sectors (nextSize sectors size) < distance sectors size ∨
      nextSize sectors size = fixedSize sectors ∨
      nextSize sectors (nextSize sectors size) = fixedSize sectors := by
  obtain ⟨hfits, hself⟩ := fixedSize_spec hgap hroom
  rw [nextSize_eq_self_iff hfits] at hself
  have hnext := nextSize_eq h
  rw [nextSize_eq (h.next hroom)]
  simp only [distance]
  obtain ⟨hpos, hle⟩ := h
  omega

/-- Outside the gaps the search ends. -/
theorem fatLoop_ends (hgap : ¬ Gap sectors) (hroom : 34 ≤ sectors)
    (hsectors : sectors < 2 ^ 30) (h : Fits sectors size) :
    ∃ fuel result, fatLoop sectors fuel size = some result := by
  obtain ⟨hfits, hself⟩ := fixedSize_spec hgap hroom
  -- A round that does not end the search is put in front of the rest.
  have hround : ∀ {size}, Fits sectors size → (∃ fuel result,
        fatLoop sectors fuel (nextSize sectors size) = some result) →
      ∃ fuel result, fatLoop sectors fuel size = some result := by
    rintro size hsize ⟨fuel, result, hfuel⟩
    refine ⟨fuel + 1, ?_⟩
    rw [fatLoop_succ hsize hsectors]
    split
    · exact ⟨_, rfl⟩
    · exact ⟨result, hfuel⟩
  have hstop : ∃ fuel result, fatLoop sectors fuel (fixedSize sectors) = some result :=
    ⟨1, _, by rw [fatLoop_succ hfits hsectors, if_pos hself]⟩
  generalize hd : distance sectors size = d
  induction d using Nat.strong_induction_on generalizing size with
  | _ d ih =>
    rcases nextSize_closer hgap hroom h with hcloser | heq | heq
    · exact hround h (ih _ (hd ▸ hcloser) (h.next hroom) rfl)
    · exact hround h (heq ▸ hstop)
    · exact hround h (hround (h.next hroom) (heq ▸ hstop))

end Search

/-! ## The layout -/

/-- The parts of the disk tile it, the tables have an entry for each cluster
and two more, and the file fits behind the directories. -/
structure WellSized (g : FatGeometry) (totalSectors fileBytes : ℕ) :
    Prop where
  entries : g.clusters + 2 ≤ g.fatSectors * 128
  tiles : fatReservedSectors + fatCount * g.fatSectors + g.clusters = g.partitionSectors
  partition : g.partitionStart + g.partitionSectors + 33 = totalSectors
  fits : (fileBytes + 511) / 512 + directoryClusters ≤ g.clusters

/-- The clusters of a disk whose layout is found. -/
def clustersOf (totalSectors : ℕ) : ℕ :=
  totalSectors - 2081 - (32 + 2 * fixedSize (totalSectors - 2081))

/-- The disk is too small, or the clusters of the file and its directories are
counted without overflow and a file whose number of clusters is narrowed is
not taken for a smaller one that fits. -/
def Counted (totalSectors fileBytes : ℕ) : Prop :=
  clustersOf totalSectors < fat32MinClusters ∨
    fileClusterCount fileBytes + directoryClusters < 2 ^ 32 ∧ ((fileBytes + 511) / 512 < 2 ^ 32 ∨
      clustersOf totalSectors < fileClusterCount fileBytes + directoryClusters)

/-- The search ends and the clusters are counted. -/
def Sizable (totalSectors fileBytes : ℕ) : Prop :=
  (totalSectors < 2115 ∨ ¬ Gap (totalSectors - 2081)) ∧ Counted totalSectors fileBytes

section Layout

variable {totalSectors fileBytes : ℕ}

/-- What follows once the size of the tables is found. -/
def sized (totalSectors fileBytes : ℕ) : Outcome GenesisError FatGeometry :=
  if clustersOf totalSectors < fat32MinClusters then .fail .diskTooSmall
  else if fileClusterCount fileBytes + directoryClusters ≥ 2 ^ 32 then .halt
  else if fileClusterCount fileBytes + directoryClusters >
      clustersOf totalSectors then
    .fail .payloadTooLarge
  else
    .done ⟨totalSectors, efiPartitionStart, totalSectors - 2081,
      fixedSize (totalSectors - 2081), clustersOf totalSectors, fileClusterCount fileBytes⟩

theorem fits_one (hroom : 2115 ≤ totalSectors) : Fits (totalSectors - 2081) 1 :=
  ⟨Nat.le_refl 1, by omega⟩

/-- A disk with room for the search has the layout of the fixed point. -/
theorem new_result (hroom : 2115 ≤ totalSectors) (hsectors : totalSectors < 2 ^ 30) {fuel : ℕ}
    {result : Outcome GenesisError FatGeometry}
    (h : new fuel totalSectors fileBytes = some result) :
    result = sized totalSectors fileBytes := by
  have hpartition : totalSectors - efiPartitionStart - 33 = totalSectors - 2081 := by
    rw [efiPartitionStart]
    omega
  rw [new, if_neg (by change ¬ totalSectors ≤ 2048 + 34; omega)] at h
  rw [hpartition, Option.map_eq_some_iff] at h
  obtain ⟨found, hfound, rfl⟩ := h
  rw [fatLoop_result (by omega) (by omega) (fits_one hroom) hfound]
  rfl

theorem new_ends (hroom : 2115 ≤ totalSectors) (hsectors : totalSectors < 2 ^ 30) :
    (∃ fuel result, new fuel totalSectors fileBytes = some result) ↔
      ¬ Gap (totalSectors - 2081) := by
  have hnew : ∀ fuel, (∃ result, new fuel totalSectors fileBytes = some result) ↔
        ∃ result, fatLoop (totalSectors - 2081) fuel 1 = some result := by
    intro fuel
    rw [new, if_neg (by change ¬ totalSectors ≤ 2048 + 34; omega)]
    have hpartition : totalSectors - efiPartitionStart - 33 = totalSectors - 2081 := by
      rw [efiPartitionStart]
      omega
    rw [hpartition]
    simp
  constructor
  · rintro ⟨fuel, hfuel⟩ hgap
    obtain ⟨result, hresult⟩ := (hnew fuel).mp hfuel
    rw [fatLoop_gap hgap (by omega) (by omega) fuel (fits_one hroom)] at hresult
    cases hresult
  · intro hgap
    obtain ⟨fuel, hfuel⟩ := fatLoop_ends hgap (by omega) (by omega) (fits_one hroom)
    exact ⟨fuel, (hnew fuel).mpr hfuel⟩

/-- A disk without room for the search is refused at once. -/
theorem new_small (hsmall : totalSectors < 2115) :
    new 1 totalSectors fileBytes = some (.fail .diskTooSmall) := by
  rw [new]
  split
  · rfl
  have hsearch : fatLoop (totalSectors - efiPartitionStart - 33) 1 1 =
      some (.fail .diskTooSmall) := by
    rw [fatLoop, if_pos]
    change totalSectors - 2048 - 33 < 32 + 2 * 1
    omega
  dsimp only
  rw [hsearch]
  rfl

/-- A layout that is accepted is the one of the fixed point. -/
theorem sized_eq_done_iff {g : FatGeometry} : sized totalSectors fileBytes = .done g ↔
      (fat32MinClusters ≤ clustersOf totalSectors ∧
        fileClusterCount fileBytes + directoryClusters < 2 ^ 32 ∧
        fileClusterCount fileBytes + directoryClusters ≤ clustersOf totalSectors) ∧
      g = ⟨totalSectors, efiPartitionStart, totalSectors - 2081,
        fixedSize (totalSectors - 2081), clustersOf totalSectors, fileClusterCount fileBytes⟩ := by
  rw [sized]
  split
  · next hsmall => simp [Nat.not_le.mpr hsmall]
  split
  · next hlarge =>
      refine ⟨fun h => ?_, fun h => absurd h.1.2.1 (Nat.not_lt.mpr hlarge)⟩
      cases h
  split
  · next hfull => simp [Nat.not_le.mpr hfull]
  rename_i hclusters hcount hfits
  rw [Outcome.done.injEq, eq_comm]
  exact ⟨fun h => ⟨⟨Nat.not_lt.mp hclusters,
    Nat.not_le.mp hcount, Nat.not_lt.mp hfits⟩, h⟩, fun h => h.2⟩

/-- The machine stops where the clusters of the file and its directories
overflow. -/
theorem sized_eq_halt_iff : sized totalSectors fileBytes = .halt ↔
    fat32MinClusters ≤ clustersOf totalSectors ∧
      2 ^ 32 ≤ fileClusterCount fileBytes + directoryClusters := by
  rw [sized]
  split_ifs with hclusters hcount
  · simp [Nat.not_le.mpr hclusters]
  · exact iff_of_true rfl ⟨Nat.not_lt.mp hclusters, hcount⟩
  · exact iff_of_false (by simp) fun h => hcount h.2
  · exact iff_of_false (by simp) fun h => hcount h.2

/-- The layout of the fixed point is found and well sized, unless the clusters
of the file were miscounted. -/
theorem sized_wellSized (hroom : 2115 ≤ totalSectors) (hsectors : totalSectors < 2 ^ 30)
    (hgap : ¬ Gap (totalSectors - 2081)) : (sized totalSectors fileBytes ≠ .halt ∧
      ∀ g, sized totalSectors fileBytes = .done g → g.WellSized totalSectors fileBytes) ↔
    Counted totalSectors fileBytes := by
  obtain ⟨⟨hpos, hle⟩, hself⟩ := fixedSize_spec hgap (by omega)
  have hentries := (nextSize_eq_self_iff ⟨hpos, hle⟩).mp hself
  rw [Ne, sized_eq_halt_iff, Counted]
  constructor
  · rintro ⟨hreturns, hall⟩
    by_contra hnot
    have hsized := hall _ (sized_eq_done_iff.mpr ⟨⟨by omega, by omega, by omega⟩, rfl⟩)
    have hwrong : (fileBytes + 511) / 512 + directoryClusters ≤
        clustersOf totalSectors := hsized.fits
    have hbound : clustersOf totalSectors < 2 ^ 30 := by
      rw [clustersOf]
      omega
    omega
  · intro hcount
    refine ⟨by omega, fun g hg => ?_⟩
    obtain ⟨⟨hclusters, -, hfits⟩, rfl⟩ := sized_eq_done_iff.mp hg
    have hexact : fileClusterCount fileBytes = (fileBytes + 511) / 512 :=
      Nat.mod_eq_of_lt (by omega)
    refine ⟨?_, ?_, ?_, ?_⟩
    · change clustersOf totalSectors + 2 ≤ fixedSize (totalSectors - 2081) * 128
      rw [clustersOf]
      omega
    · change 32 + 2 * fixedSize (totalSectors - 2081) +
        clustersOf totalSectors = totalSectors - 2081
      rw [clustersOf]
      omega
    · change 2048 + (totalSectors - 2081) + 33 = totalSectors
      omega
    · rw [← hexact]
      exact hfits

end Layout

/-- On a disk of less than `2 ^ 30` sectors the search ends without a halt, and
a layout that is accepted is well sized, exactly if the disk is `Sizable` for
the file. -/
theorem fat_sizing (totalSectors fileBytes : ℕ) (hsectors : totalSectors < 2 ^ 30) :
    (∃ fuel result, new fuel totalSectors fileBytes = some result ∧ result ≠ .halt ∧
      ∀ g, result = .done g → g.WellSized totalSectors fileBytes) ↔
    Sizable totalSectors fileBytes := by
  by_cases hroom : 2115 ≤ totalSectors
  · constructor
    · rintro ⟨fuel, result, hnew, hall⟩
      have hgap := (new_ends hroom hsectors).mp ⟨fuel, result, hnew⟩
      rw [new_result hroom hsectors hnew] at hall
      exact ⟨.inr hgap, (sized_wellSized hroom hsectors hgap).mp hall⟩
    rintro ⟨hends, hcount⟩
    have hgap : ¬ Gap (totalSectors - 2081) := by
      rcases hends with hsmall | hgap
      · exact absurd hroom (Nat.not_le.mpr hsmall)
      · exact hgap
    obtain ⟨fuel, result, hnew⟩ := (new_ends hroom hsectors).mpr hgap
    refine ⟨fuel, result, hnew, ?_⟩
    rw [new_result hroom hsectors hnew]
    exact (sized_wellSized hroom hsectors hgap).mpr hcount
  · have hsmall : totalSectors < 2115 := Nat.not_le.mp hroom
    constructor
    · intro _
      refine ⟨.inl hsmall, .inl ?_⟩
      change totalSectors - 2081 - _ < 65525
      omega
    · intro _
      refine ⟨1, _, new_small hsmall, by simp, fun g hg => ?_⟩
      cases hg

/-- A disk of 72 MiB is laid out for a small file. -/
theorem small_disk_sized : ∃ fuel result, new fuel 147456 21 = some result ∧ result ≠ .halt ∧
      ∀ g, result = .done g → g.WellSized 147456 21 := by
  refine (fat_sizing 147456 21 (by decide)).mpr ⟨.inr ?_, .inr ⟨by decide, .inl ?_⟩⟩
  · rintro (hgap | hgap)
    · exact absurd hgap (by decide)
    · exact absurd hgap (by decide)
  · decide

/-- On a disk with four sectors less the search does not end. -/
theorem search_does_not_end : ¬ ∃ fuel result, new fuel 147452 21 = some result := by
  rw [new_ends (by decide) (by decide), not_not]
  exact .inl (by decide)

end FatGeometry

end ExpOS
