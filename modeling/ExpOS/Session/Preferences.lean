import ExpOS.Store.Snapshot

/-!
# Preferences

The preferences of the desktop are one record of the system database.
A preference record has 32 octets.  Its first nine are as old as the format;
two tagged extensions, for the display timing and for the customization, were
added in octets that used to be reserved, and a record without a tag reads as
the defaults of that extension.  Three selectors of two bits share one octet
of the customization.

Whatever is read goes through `sanitizePreferences`, which replaces a selector
that is out of range by a default.
-/

namespace ExpOS.PersistentState

/-! ## Preferences -/

inductive RefreshRate where
  | hz60
  | hz75
  | hz120
  | hz144
deriving DecidableEq

namespace RefreshRate

def default : RefreshRate := hz60

def persistedId : RefreshRate → UInt8
  | hz60 => 0
  | hz75 => 1
  | hz120 => 2
  | hz144 => 3

def fromPersistedId (value : UInt8) : Option RefreshRate :=
  if value = 0 then some hz60
  else if value = 1 then some hz75
  else if value = 2 then some hz120
  else if value = 3 then some hz144
  else none

@[simp] theorem fromPersistedId_persistedId (rate : RefreshRate) :
    fromPersistedId rate.persistedId = some rate := by
  cases rate <;> rfl

end RefreshRate

def prefPureBlackApps : UInt16 := 0x0001
def prefRoundedControls : UInt16 := 0x0002
def prefTaskbarVisible : UInt16 := 0x0004
def prefStatusVisible : UInt16 := 0x0008
def prefWindowBorders : UInt16 := 0x0010
def prefHighContrast : UInt16 := 0x0020
def prefNetworkEnabled : UInt16 := 0x0040
def prefBluetoothEnabled : UInt16 := 0x0080
def prefWifiEnabled : UInt16 := 0x0100
def prefWindowShadows : UInt16 := 0x0200
def prefWallpaperEffects : UInt16 := 0x0400
def prefResponsivePresentation : UInt16 := 0x0800
def prefMenuHideBuiltins : UInt16 := 0x1000
def prefMenuHideInstalled : UInt16 := 0x2000
def prefMenuGrid : UInt16 := 0x4000
def prefMenuCategories : UInt16 := 0x8000

def defaultFontWeight : UInt8 := 1

structure PersistentPreferences where
  displayMode : UInt8
  theme : UInt8
  wallpaper : UInt8
  cursorTheme : UInt8
  accent : UInt8
  backdrop : UInt8
  pointerSpeed : UInt8
  flags : UInt16
  refreshRate : RefreshRate
  vsync : Bool
  fontFace : UInt8
  fontWeight : UInt8
  windowCornerRadius : UInt8
  windowBorderWidth : UInt8
  titlebarDensity : UInt8
  taskbarPlacement : UInt8
  taskbarSize : UInt8
  taskbarAlignment : UInt8
  taskbarAutohide : Bool
  taskbarTranslucent : Bool
  taskbarLabels : Bool
  clockSeconds : Bool
  windowOffscreenAllowance : UInt8
  windowSnapDistance : UInt8
  windowSnap : Bool
  menuDensity : UInt8
  animationLevel : UInt8
  uiScale : UInt8
  scrollSpeed : UInt8
  focusPolicy : UInt8
  windowOpacity : UInt8
  tooltips : Bool
  cursorShadow : Bool
  notificationAnimations : Bool
deriving DecidableEq

def PersistentPreferences.new : PersistentPreferences where
  displayMode := 0
  theme := 0
  wallpaper := 0
  cursorTheme := 0
  accent := 0
  backdrop := 0
  pointerSpeed := 1
  flags := prefPureBlackApps ||| prefRoundedControls ||| prefTaskbarVisible |||
    prefStatusVisible ||| prefNetworkEnabled
  refreshRate := .default
  vsync := true
  fontFace := 0
  fontWeight := defaultFontWeight
  windowCornerRadius := 0
  windowBorderWidth := 0
  titlebarDensity := 0
  taskbarPlacement := 0
  taskbarSize := 0
  taskbarAlignment := 0
  taskbarAutohide := false
  taskbarTranslucent := false
  taskbarLabels := false
  clockSeconds := false
  windowOffscreenAllowance := 0
  windowSnapDistance := 0
  windowSnap := false
  menuDensity := 0
  animationLevel := 0
  uiScale := 0
  scrollSpeed := 0
  focusPolicy := 0
  windowOpacity := 0
  tooltips := false
  cursorShadow := false
  notificationAnimations := false

/-! ## Sanitizing -/

def sanitizeChoiceOr (value choices fallback : UInt8) : UInt8 :=
  if value < choices then value else fallback

def sanitizeChoice (value choices : UInt8) : UInt8 :=
  sanitizeChoiceOr value choices 0

-- The number of values of each selector; the source counts the entries of
-- its tables of names and sizes.
def fontFaceChoices : UInt8 := 5
def fontWeightChoices : UInt8 := 3
def windowCornerRadiusChoices : UInt8 := 9
def windowBorderWidthChoices : UInt8 := 7
def titlebarDensityChoices : UInt8 := 5
def taskbarPlacementChoices : UInt8 := 4
def taskbarSizeChoices : UInt8 := 9
def taskbarAlignmentChoices : UInt8 := 3
def windowOffscreenAllowanceChoices : UInt8 := 9
def windowSnapDistanceChoices : UInt8 := 9
def menuDensityChoices : UInt8 := 5
def animationLevelChoices : UInt8 := 5
def uiScaleChoices : UInt8 := 7
def scrollSpeedChoices : UInt8 := 7
def focusPolicyChoices : UInt8 := 3
def windowOpacityChoices : UInt8 := 6
def wallpaperVariantChoices : UInt8 := 252

/-- A value of an inclusive range, or a fallback. -/
def sanitizeRange (value low high fallback : UInt8) : UInt8 :=
  if low ≤ value ∧ value ≤ high then value else fallback

/-- The flags a record may carry. -/
def knownFlags : UInt16 :=
  prefPureBlackApps ||| prefRoundedControls ||| prefTaskbarVisible |||
    prefStatusVisible ||| prefWindowBorders ||| prefHighContrast |||
    prefNetworkEnabled ||| prefBluetoothEnabled ||| prefWifiEnabled |||
    prefWindowShadows ||| prefWallpaperEffects ||| prefResponsivePresentation |||
    prefMenuHideBuiltins ||| prefMenuHideInstalled ||| prefMenuGrid |||
    prefMenuCategories

def sanitizePreferences (value : PersistentPreferences) : PersistentPreferences :=
  { value with
    displayMode := sanitizeRange value.displayMode 0 2 0
    wallpaper := sanitizeChoice value.wallpaper wallpaperVariantChoices
    cursorTheme := sanitizeRange value.cursorTheme 0 3 0
    pointerSpeed := sanitizeRange value.pointerSpeed 1 3 1
    fontFace := sanitizeChoice value.fontFace fontFaceChoices
    fontWeight := sanitizeChoiceOr value.fontWeight fontWeightChoices defaultFontWeight
    windowCornerRadius := sanitizeChoice value.windowCornerRadius windowCornerRadiusChoices
    windowBorderWidth := sanitizeChoice value.windowBorderWidth windowBorderWidthChoices
    titlebarDensity := sanitizeChoice value.titlebarDensity titlebarDensityChoices
    taskbarPlacement := sanitizeChoice value.taskbarPlacement taskbarPlacementChoices
    taskbarSize := sanitizeChoice value.taskbarSize taskbarSizeChoices
    taskbarAlignment := sanitizeChoice value.taskbarAlignment taskbarAlignmentChoices
    windowOffscreenAllowance :=
      sanitizeChoice value.windowOffscreenAllowance windowOffscreenAllowanceChoices
    windowSnapDistance := sanitizeChoice value.windowSnapDistance windowSnapDistanceChoices
    menuDensity := sanitizeChoice value.menuDensity menuDensityChoices
    animationLevel := sanitizeChoice value.animationLevel animationLevelChoices
    uiScale := sanitizeChoice value.uiScale uiScaleChoices
    scrollSpeed := sanitizeChoice value.scrollSpeed scrollSpeedChoices
    focusPolicy := sanitizeChoice value.focusPolicy focusPolicyChoices
    windowOpacity := sanitizeChoice value.windowOpacity windowOpacityChoices
    flags := value.flags &&& knownFlags }

/-- A choice between a value and a fallback made twice. -/
theorem sanitizeChoiceOr_idem (value choices fallback : UInt8) :
    sanitizeChoiceOr (sanitizeChoiceOr value choices fallback) choices fallback =
      sanitizeChoiceOr value choices fallback := by
  unfold sanitizeChoiceOr
  split <;> simp_all

theorem sanitizeRange_idem (value low high fallback : UInt8) :
    sanitizeRange (sanitizeRange value low high fallback) low high fallback =
      sanitizeRange value low high fallback := by
  unfold sanitizeRange
  split <;> simp_all

variable (value : PersistentPreferences)

theorem sanitizePreferences_idem :
    sanitizePreferences (sanitizePreferences value) = sanitizePreferences value := by
  simp only [sanitizePreferences, sanitizeChoice, sanitizeChoiceOr_idem,
    sanitizeRange_idem, UInt16.and_assoc, UInt16.and_self]

/-! ## The preference record -/

def displayTimingTag : Bytes := asciiBytes "HZ1"
def displayTimingTagOffset : ℕ := 9
def refreshRateOffset : ℕ := 12
def vsyncOffset : ℕ := 13
def preferencesReservedOffset : ℕ := 14
def vsyncDisabledId : UInt8 := 0
def vsyncEnabledId : UInt8 := 1

def customizationTag : Bytes := asciiBytes "CX1"
def customizationTagOffset : ℕ := preferencesReservedOffset
def customizationDataOffset : ℕ := customizationTagOffset + 3
def fontFaceOffset : ℕ := customizationDataOffset
def fontWeightOffset : ℕ := customizationDataOffset + 1
def windowCornerRadiusOffset : ℕ := customizationDataOffset + 2
def windowBorderWidthOffset : ℕ := customizationDataOffset + 3
def titlebarDensityOffset : ℕ := customizationDataOffset + 4
def windowLayoutOffset : ℕ := customizationDataOffset + 5
def taskbarSizeOffset : ℕ := customizationDataOffset + 6
def windowOffscreenAllowanceOffset : ℕ := customizationDataOffset + 7
def windowSnapDistanceOffset : ℕ := customizationDataOffset + 8
def menuDensityOffset : ℕ := customizationDataOffset + 9
def animationLevelOffset : ℕ := customizationDataOffset + 10
def uiScaleOffset : ℕ := customizationDataOffset + 11
def scrollSpeedOffset : ℕ := customizationDataOffset + 12
def customizationFlagsOffset : ℕ := customizationDataOffset + 13
def windowOpacityOffset : ℕ := customizationDataOffset + 14

def taskbarPlacementShift : UInt8 := 0
def taskbarAlignmentShift : UInt8 := 2
def focusPolicyShift : UInt8 := 4
def twoBitFieldMask : UInt8 := 0b11

def customTaskbarAutohide : UInt8 := 0x01
def customTaskbarTranslucent : UInt8 := 0x02
def customTaskbarLabels : UInt8 := 0x04
def customClockSeconds : UInt8 := 0x08
def customWindowSnap : UInt8 := 0x10
def customTooltips : UInt8 := 0x20
def customCursorShadow : UInt8 := 0x40
def customNotificationAnimations : UInt8 := 0x80

/-- One flag of the customization, or nothing. -/
def flagIf (set : Bool) (flag : UInt8) : UInt8 :=
  if set then flag else 0

/-- The flags of the customization, in the order of their bits. -/
def flagBits (b₀ b₁ b₂ b₃ b₄ b₅ b₆ b₇ : Bool) : UInt8 :=
  flagIf b₀ customTaskbarAutohide ||| flagIf b₁ customTaskbarTranslucent |||
    flagIf b₂ customTaskbarLabels ||| flagIf b₃ customClockSeconds |||
    flagIf b₄ customWindowSnap ||| flagIf b₅ customTooltips |||
    flagIf b₆ customCursorShadow ||| flagIf b₇ customNotificationAnimations

def customizationFlags (value : PersistentPreferences) : UInt8 :=
  flagBits value.taskbarAutohide value.taskbarTranslucent value.taskbarLabels
    value.clockSeconds value.windowSnap value.tooltips value.cursorShadow
    value.notificationAnimations

/-- The octet three selectors share. -/
def windowLayout (placement alignment focus : UInt8) : UInt8 :=
  ((placement &&& twoBitFieldMask) <<< taskbarPlacementShift) |||
    ((alignment &&& twoBitFieldMask) <<< taskbarAlignmentShift) |||
    ((focus &&& twoBitFieldMask) <<< focusPolicyShift)

def encodePreferences (value : PersistentPreferences) : ByteBlock settingsRecordCapacity :=
  ⟨[value.displayMode, value.theme, value.wallpaper, value.cursorTheme, value.accent,
      value.backdrop, value.pointerSpeed] ++
    Bytes.toLeBytes 2 value.flags.toNat ++ displayTimingTag ++
    [value.refreshRate.persistedId,
      if value.vsync then vsyncEnabledId else vsyncDisabledId] ++ customizationTag ++
    [value.fontFace, value.fontWeight, value.windowCornerRadius, value.windowBorderWidth,
      value.titlebarDensity,
      windowLayout value.taskbarPlacement value.taskbarAlignment value.focusPolicy,
      value.taskbarSize, value.windowOffscreenAllowance, value.windowSnapDistance,
      value.menuDensity, value.animationLevel, value.uiScale, value.scrollSpeed,
      customizationFlags value, value.windowOpacity], rfl⟩

def customizationValue (input : Bytes) (present : Bool) (offset : ℕ) (default : UInt8) : UInt8 :=
  if present then input.octet offset else default

/-- The values of a record as they stand there. -/
def readPreferences (input : Bytes) : PersistentPreferences :=
  let hasDisplayTiming := input.part displayTimingTagOffset 3 == displayTimingTag
  let hasCustomization := input.part customizationTagOffset 3 == customizationTag
  let defaults := PersistentPreferences.new
  let value := customizationValue input hasCustomization
  let layout := customizationValue input hasCustomization windowLayoutOffset 0
  let flags := customizationValue input hasCustomization customizationFlagsOffset 0
  { displayMode := input.octet 0
    theme := input.octet 1
    wallpaper := input.octet 2
    cursorTheme := input.octet 3
    accent := input.octet 4
    backdrop := input.octet 5
    pointerSpeed := input.octet 6
    flags := UInt16.ofNat (Bytes.fromLeBytes (input.part 7 2))
    refreshRate :=
      if hasDisplayTiming then
        (RefreshRate.fromPersistedId (input.octet refreshRateOffset)).getD .default
      else .default
    -- only the id of a disabled synchronisation disables it
    vsync := if hasDisplayTiming then input.octet vsyncOffset != vsyncDisabledId else true
    fontFace := value fontFaceOffset defaults.fontFace
    fontWeight := value fontWeightOffset defaults.fontWeight
    windowCornerRadius := value windowCornerRadiusOffset defaults.windowCornerRadius
    windowBorderWidth := value windowBorderWidthOffset defaults.windowBorderWidth
    titlebarDensity := value titlebarDensityOffset defaults.titlebarDensity
    taskbarPlacement := (layout >>> taskbarPlacementShift) &&& twoBitFieldMask
    taskbarSize := value taskbarSizeOffset defaults.taskbarSize
    taskbarAlignment := (layout >>> taskbarAlignmentShift) &&& twoBitFieldMask
    taskbarAutohide := flags &&& customTaskbarAutohide != 0
    taskbarTranslucent := flags &&& customTaskbarTranslucent != 0
    taskbarLabels := flags &&& customTaskbarLabels != 0
    clockSeconds := flags &&& customClockSeconds != 0
    windowOffscreenAllowance :=
      value windowOffscreenAllowanceOffset defaults.windowOffscreenAllowance
    windowSnapDistance := value windowSnapDistanceOffset defaults.windowSnapDistance
    windowSnap := flags &&& customWindowSnap != 0
    menuDensity := value menuDensityOffset defaults.menuDensity
    animationLevel := value animationLevelOffset defaults.animationLevel
    uiScale := value uiScaleOffset defaults.uiScale
    scrollSpeed := value scrollSpeedOffset defaults.scrollSpeed
    focusPolicy := (layout >>> focusPolicyShift) &&& twoBitFieldMask
    windowOpacity := value windowOpacityOffset defaults.windowOpacity
    tooltips := flags &&& customTooltips != 0
    cursorShadow := flags &&& customCursorShadow != 0
    notificationAnimations := flags &&& customNotificationAnimations != 0 }

def decodePreferences (input : ByteBlock settingsRecordCapacity) : PersistentPreferences :=
  sanitizePreferences (readPreferences input.val)

/-! ## Reading a record back -/

/-- Every flag is read back as it was set. -/
theorem flagBits_read (b₀ b₁ b₂ b₃ b₄ b₅ b₆ b₇ : Bool) :
    let flags := flagBits b₀ b₁ b₂ b₃ b₄ b₅ b₆ b₇
    (flags &&& customTaskbarAutohide != 0) = b₀ ∧ (flags &&& customTaskbarTranslucent != 0) = b₁ ∧
      (flags &&& customTaskbarLabels != 0) = b₂ ∧ (flags &&& customClockSeconds != 0) = b₃ ∧
      (flags &&& customWindowSnap != 0) = b₄ ∧ (flags &&& customTooltips != 0) = b₅ ∧
      (flags &&& customCursorShadow != 0) = b₆ ∧
      (flags &&& customNotificationAnimations != 0) = b₇ := by
  revert b₀ b₁ b₂ b₃ b₄ b₅ b₆ b₇
  decide

/-- What a two-bit field holds is one of four values. -/
theorem exists_twoBitField (value : UInt8) :
    ∃ bits : Fin 4, value &&& twoBitFieldMask = UInt8.ofNat bits := by
  refine ⟨⟨value.toNat % 4, Nat.mod_lt _ (by decide)⟩, UInt8.toNat_inj.mp ?_⟩
  have hand : value.toNat &&& (2 ^ 2 - 1) = value.toNat % 2 ^ 2 :=
    Nat.and_two_pow_sub_one_eq_mod _ 2
  have hlt : value.toNat % 4 < 256 := (Nat.mod_lt _ (by decide)).trans (by decide)
  rw [UInt8.toNat_ofNat_of_lt' hlt]
  exact hand

theorem windowLayout_read (placement alignment focus : UInt8) :
    let layout := windowLayout placement alignment focus
    (layout >>> taskbarPlacementShift) &&& twoBitFieldMask = placement &&& twoBitFieldMask ∧
      (layout >>> taskbarAlignmentShift) &&& twoBitFieldMask = alignment &&& twoBitFieldMask ∧
      (layout >>> focusPolicyShift) &&& twoBitFieldMask = focus &&& twoBitFieldMask := by
  obtain ⟨x, hx⟩ := exists_twoBitField placement
  obtain ⟨y, hy⟩ := exists_twoBitField alignment
  obtain ⟨z, hz⟩ := exists_twoBitField focus
  simp only [windowLayout, hx, hy, hz]
  clear hx hy hz
  revert x y z
  decide

/-- The preferences with the selectors that share an octet cut to two bits. -/
def packed (value : PersistentPreferences) : PersistentPreferences :=
  { value with
    taskbarPlacement := value.taskbarPlacement &&& twoBitFieldMask
    taskbarAlignment := value.taskbarAlignment &&& twoBitFieldMask
    focusPolicy := value.focusPolicy &&& twoBitFieldMask }

theorem readPreferences_encodePreferences :
    readPreferences (encodePreferences value).val = packed value := by
  have hcustom : (encodePreferences value).val.part customizationTagOffset 3 =
      customizationTag := rfl
  have hflags : UInt16.ofNat (Bytes.fromLeBytes ((encodePreferences value).val.part 7 2)) =
      value.flags := by
    have hpart : (encodePreferences value).val.part 7 2 = Bytes.toLeBytes 2 value.flags.toNat := rfl
    rw [hpart, Bytes.fromLeBytes_toLeBytes_of_lt value.flags.toNat_lt, UInt16.ofNat_toNat]
  have hrate : RefreshRate.fromPersistedId
      ((encodePreferences value).val.octet refreshRateOffset) = some value.refreshRate :=
    RefreshRate.fromPersistedId_persistedId value.refreshRate
  have hvsync : ((encodePreferences value).val.octet vsyncOffset != vsyncDisabledId) =
      value.vsync := by
    change ((if value.vsync then vsyncEnabledId else vsyncDisabledId) != vsyncDisabledId) = _
    cases value.vsync <;> rfl
  obtain ⟨hplacement, halignment, hfocus⟩ := windowLayout_read value.taskbarPlacement
    value.taskbarAlignment value.focusPolicy
  obtain ⟨h₀, h₁, h₂, h₃, h₄, h₅, h₆, h₇⟩ := flagBits_read value.taskbarAutohide
    value.taskbarTranslucent value.taskbarLabels value.clockSeconds value.windowSnap
    value.tooltips value.cursorShadow value.notificationAnimations
  have hlayout : (encodePreferences value).val.octet windowLayoutOffset =
      windowLayout value.taskbarPlacement value.taskbarAlignment value.focusPolicy := rfl
  have hbits : (encodePreferences value).val.octet customizationFlagsOffset =
      flagBits value.taskbarAutohide value.taskbarTranslucent value.taskbarLabels
        value.clockSeconds value.windowSnap value.tooltips value.cursorShadow
        value.notificationAnimations := rfl
  simp only [readPreferences, hcustom, beq_self_eq_true, customizationValue, if_true, hflags,
    hrate, hvsync, hlayout, hbits, hplacement, halignment, hfocus, h₀, h₁, h₂, h₃, h₄, h₅, h₆, h₇]
  rfl

/-- The two bits of a selector select what the selector did. -/
def Fits (value choices : UInt8) : Prop :=
  sanitizeChoice (value &&& twoBitFieldMask) choices = sanitizeChoice value choices

/-- The selectors that share an octet fit into their two bits. -/
structure LayoutFits (value : PersistentPreferences) : Prop where
  placement : Fits value.taskbarPlacement taskbarPlacementChoices
  alignment : Fits value.taskbarAlignment taskbarAlignmentChoices
  focus : Fits value.focusPolicy focusPolicyChoices

theorem decodePreferences_encodePreferences_iff :
    decodePreferences (encodePreferences value) = sanitizePreferences value ↔
      LayoutFits value := by
  rw [decodePreferences, readPreferences_encodePreferences]
  constructor
  · intro h
    exact ⟨congrArg PersistentPreferences.taskbarPlacement h,
      congrArg PersistentPreferences.taskbarAlignment h,
      congrArg PersistentPreferences.focusPolicy h⟩
  · rintro ⟨hplacement, halignment, hfocus⟩
    unfold Fits at hplacement halignment hfocus
    simp only [sanitizePreferences, packed, hplacement, halignment, hfocus]

/-- Choosing among at most four values keeps a value of two bits. -/
theorem fits_sanitizeChoice (value : UInt8) {choices : UInt8} (h : choices ≤ 4) :
    Fits (sanitizeChoice value choices) choices := by
  have hlt : (sanitizeChoice value choices).toNat < 2 ^ 2 := by
    have hfour := UInt8.le_iff_toNat_le.mp h
    unfold sanitizeChoice sanitizeChoiceOr
    split
    · next hvalue => exact (UInt8.lt_iff_toNat_lt.mp hvalue).trans_le hfour
    · decide
  have hmask : sanitizeChoice value choices &&& twoBitFieldMask = sanitizeChoice value choices := by
    refine UInt8.toNat_inj.mp ?_
    exact Nat.and_two_pow_sub_one_of_lt_two_pow hlt
  rw [Fits, hmask]

theorem layoutFits_sanitizePreferences :
    LayoutFits (sanitizePreferences value) :=
  ⟨fits_sanitizeChoice _ (by decide), fits_sanitizeChoice _ (by decide),
    fits_sanitizeChoice _ (by decide)⟩

/-- Whatever a record holds, sanitizing once more changes nothing. -/
theorem sanitizePreferences_decodePreferences (input : ByteBlock settingsRecordCapacity) :
    sanitizePreferences (decodePreferences input) = decodePreferences input :=
  sanitizePreferences_idem (readPreferences input.val)

/-- A record that reads back as it was written holds sanitized preferences. -/
theorem decodePreferences_encodePreferences_eq_iff :
    decodePreferences (encodePreferences value) = value ↔ sanitizePreferences value = value := by
  constructor
  · intro h
    rw [← h, sanitizePreferences_decodePreferences]
  intro h
  have hfits := layoutFits_sanitizePreferences value
  rw [h] at hfits
  rw [(decodePreferences_encodePreferences_iff value).mpr hfits, h]

end ExpOS.PersistentState
