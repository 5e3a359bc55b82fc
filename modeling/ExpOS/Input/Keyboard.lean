import Mathlib.Data.Int.Notation
import Mathlib.Data.List.Basic

/-!
# Boot-protocol input reports

A keyboard report lists the keys that are down.  The driver compares it with
the report before and passes on the first key that is new.
-/

namespace ExpOS.Usb

inductive Protocol where
  | keyboard
  | mouse

inductive HidEvent where
  | key (key : UInt8)
  | pointer (dx dy : ℤ) (buttons pressed released : UInt8)

structure Device where
  protocol : Protocol
  previousKeys : List UInt8
  mouseButtons : UInt8

/-- The keys that shift changes, other than the letters. -/
def shiftedKeys : List (Char × Char) :=
  "1234567890-=[];'`\\,./".toList.zip "!@#$%^&*()_+\x7b\x7d:\"~|<>?".toList

def applyModifiers (byte : UInt8) (shift capsLock : Bool) : UInt8 :=
  if 'a'.toUInt8 ≤ byte ∧ byte ≤ 'z'.toUInt8 then
    if shift ^^ capsLock then byte - 32 else byte
  else if !shift then byte
  else ((shiftedKeys.lookup (Char.ofNat byte.toNat)).map Char.toUInt8).getD byte

/-- Launcher, close, cycle and full screen. -/
def superBinding (key : UInt8) : Option UInt8 :=
  match Char.ofNat key.toNat |>.toLower with
  | ' ' => some 0x90
  | 'q' => some 0x93
  | '\t' => some 0x94
  | 'f' => some 0x95
  | _ => none

def hidKey (usage modifiers : UInt8) : Option UInt8 :=
  let control := modifiers &&& 0x11 != 0
  let shift := modifiers &&& 0x22 != 0
  let alt := modifiers &&& 0x44 != 0
  let superKey := modifiers &&& 0x88 != 0
  let arrow (both single plain : UInt8) :=
    some (if superKey && alt then both else if superKey then single else plain)
  let typed (base : UInt8) :=
    if base == 0x1B && control && shift then some 0x96
    else if control && (base == 'r'.toUInt8 || base == 's'.toUInt8) then
      some (base - 'a'.toUInt8 + 1)
    else
      let key := applyModifiers base shift false
      if superKey then superBinding key else some key
  let char (base : Char) := typed base.toUInt8
  if 0x04 ≤ usage ∧ usage ≤ 0x1D then typed ('a'.toUInt8 + usage - 0x04)
  else if 0x1E ≤ usage ∧ usage ≤ 0x26 then typed ('1'.toUInt8 + usage - 0x1E)
  else match usage with
    | 0x27 => char '0'
    | 0x28 => char '\n'
    | 0x29 => typed 0x1B
    | 0x2A => typed 0x08
    | 0x2B => char '\t'
    | 0x2C => char ' '
    | 0x2D => char '-'
    | 0x2E => char '='
    | 0x2F => char '['
    | 0x30 => char ']'
    | 0x31 => typed 0x5C
    | 0x33 => char ';'
    | 0x34 => typed 0x27
    | 0x35 => typed 0x60
    | 0x36 => char ','
    | 0x37 => char '.'
    | 0x38 => char '/'
    | 0x4F => arrow 0x98 0x9C 0x83
    | 0x50 => arrow 0x97 0x9B 0x82
    | 0x51 => arrow 0x9A 0x9E 0x81
    | 0x52 => arrow 0x99 0x9D 0x80
    | _ => none

/-- The octets `2..8` of a report. -/
def usages (report : List UInt8) : List UInt8 :=
  (report.drop 2).take 6

def decodeReport (device : Device) (report : List UInt8) : Option HidEvent × Device :=
  match device.protocol with
  | .keyboard =>
    if report.length ≥ 8 then
      let pressed := (usages report).foldl (fun pressed usage =>
        if usage ≠ 0 ∧ usage ∉ device.previousKeys ∧ pressed = none then
          hidKey usage (report.getD 0 0)
        else pressed) none
      (pressed.map .key, { device with previousKeys := usages report })
    else (none, device)
  | .mouse =>
    if report.length ≥ 3 then
      let buttons := report.getD 0 0 &&& 7
      (some (.pointer (report.getD 1 0).toInt8.toInt (report.getD 2 0).toInt8.toInt buttons
        (buttons &&& ~~~device.mouseButtons) (device.mouseButtons &&& ~~~buttons)),
        { device with mouseButtons := buttons })
    else (none, device)

/-- The key events of the reports, one list for each. -/
def keyEvents : Device → List (List UInt8) → List (List UInt8)
  | _, [] => []
  | device, report :: reports =>
    let (event, device) := decodeReport device report
    (match event with
      | some (.key key) => [key]
      | _ => []) :: keyEvents device reports

/-- A report that only says that too many keys are down. -/
abbrev IsPhantom (report : List UInt8) : Prop :=
  usages report = List.replicate 6 1

/-- The mapped keys that are down in a report and were up before. -/
def keysDown (held report : List UInt8) : List UInt8 :=
  ((usages report).filter fun usage => usage ≠ 0 ∧ usage ∉ held).filterMap
    (hidKey · (report.getD 0 0))

/-- The mapped keys that go down with each report; a phantom report tells
nothing about the keys. -/
def presses : List UInt8 → List (List UInt8) → List (List UInt8)
  | _, [] => []
  | held, report :: reports =>
    if IsPhantom report then [] :: presses held reports
    else keysDown held report :: presses (usages report) reports

/-- The loop keeps the first key it finds. -/
theorem foldl_pressed (held : List UInt8) (modifiers : UInt8) (usages : List UInt8) :
    ∀ pressed : Option UInt8, usages.foldl (fun pressed usage =>
      if usage ≠ 0 ∧ usage ∉ held ∧ pressed = none then hidKey usage modifiers else pressed)
        pressed =
      (pressed.toList ++ (usages.filter fun usage => usage ≠ 0 ∧ usage ∉ held).filterMap
        (hidKey · modifiers)).head? := by
  induction usages with
  | nil => simp
  | cons usage usages ih =>
    rintro (_ | key)
    · by_cases h : usage ≠ 0 ∧ usage ∉ held
      · cases hkey : hidKey usage modifiers <;> simp [ih, h.1, h.2, hkey]
      · simp [ih, h]
    · simp [ih]

theorem decodeReport_keyboard {device : Device} {report : List UInt8}
    (h : device.protocol = .keyboard) (hlength : 8 ≤ report.length) :
    decodeReport device report = ((keysDown device.previousKeys report).head?.map .key,
      { device with previousKeys := usages report }) := by
  rw [decodeReport, h]
  simp only [ge_iff_le, hlength, if_true, foldl_pressed]
  rfl

theorem keyEvents_eq_presses (device : Device) (reports : List (List UInt8))
    (hkeyboard : device.protocol = .keyboard) (hlength : ∀ report ∈ reports, 8 ≤ report.length)
    (hphantom : ∀ report ∈ reports, ¬ IsPhantom report)
    (hsingle : ∀ keys ∈ presses device.previousKeys reports, keys.length ≤ 1) :
    keyEvents device reports = presses device.previousKeys reports := by
  induction reports generalizing device with
  | nil => rfl
  | cons report reports ih =>
    obtain ⟨hreport, hrest⟩ := List.forall_mem_cons.mp hphantom
    rw [presses, if_neg hreport] at hsingle ⊢
    obtain ⟨hkeys, hlater⟩ := List.forall_mem_cons.mp hsingle
    rw [keyEvents, decodeReport_keyboard hkeyboard (hlength report List.mem_cons_self)]
    refine congrArg₂ _ ?_ (ih { device with previousKeys := usages report } hkeyboard
      (fun r hr => hlength r (List.mem_cons_of_mem _ hr))
      hrest hlater)
    match keysDown device.previousKeys report, hkeys with
    | [], _ => rfl
    | [key], _ => rfl

/-- One key is pressed, then a second one. -/
theorem keyEvents_eq_presses_twoKeys :
    let reports := [[0, 0, 4, 0, 0, 0, 0, 0], [0, 0, 4, 5, 0, 0, 0, 0]]
    keyEvents ⟨.keyboard, List.replicate 6 0, 0⟩ reports = presses (List.replicate 6 0) reports :=
  keyEvents_eq_presses _ _ rfl (by decide) (by decide) (by decide)

/-- Two keys in one report give one event, and a key held through a phantom
report gives a second one. -/
theorem presses_lost_and_repeated :
    let device : Device := ⟨.keyboard, List.replicate 6 0, 0⟩
    let both := [[0, 0, 4, 5, 0, 0, 0, 0]]
    let through := [[0, 0, 4, 0, 0, 0, 0, 0], [0, 0, 1, 1, 1, 1, 1, 1], [0, 0, 4, 0, 0, 0, 0, 0]]
    (presses device.previousKeys both = [[97, 98]] ∧ keyEvents device both = [[97]]) ∧
      presses device.previousKeys through = [[97], [], []] ∧
      keyEvents device through = [[97], [], [97]] := by
  decide

end ExpOS.Usb
