import Mathlib.Data.List.DropRight

/-!
# The JSON structure check

The check keeps the open brackets on a stack of sixteen.  A text is in order
if its strings are closed and the brackets outside them arise from nothing by
inserting matching pairs.
-/

namespace ExpOS.Json

open List

def isAsciiWhitespace (byte : UInt8) : Bool :=
  byte ∈ [0x20, 0x09, 0x0A, 0x0C, 0x0D]

def trimmed (bytes : List UInt8) : List UInt8 :=
  (bytes.dropWhile isAsciiWhitespace).rdropWhile isAsciiWhitespace

/-- The bracket that a closing one expects. -/
def expected : UInt8 → Option UInt8
  | 0x7D => some 0x7B
  | 0x5D => some 0x5B
  | _ => none

def isOpening (byte : UInt8) : Bool :=
  byte == 0x7B || byte == 0x5B

/-- `stack` holds the first `depth` entries, the last one first. -/
structure Scan where
  stack : List UInt8
  inString : Bool
  escaped : Bool

/-- One round of the loop; `none` is the early return. -/
def scanByte (s : Scan) (byte : UInt8) : Option Scan :=
  if s.inString then
    if s.escaped then some { s with escaped := false }
    else if byte = 0x5C then some { s with escaped := true }
    else if byte = 0x22 then some { s with inString := false }
    else some s
  else if byte = 0x22 then some { s with inString := true }
  else if isOpening byte ∧ s.stack.length < 16 then some { s with stack := byte :: s.stack }
  else match expected byte, s.stack with
    | none, _ => some s
    | some _, [] => none
    | some opening, top :: stack => if top = opening then some { s with stack } else none

/-- The rest of the loop and the final test. -/
def accepts (s : Scan) : List UInt8 → Bool
  | [] => s.stack.isEmpty && !s.inString
  | byte :: rest =>
    match scanByte s byte with
    | some s => accepts s rest
    | none => false

/-- The text begins and ends with a matching pair. -/
def isEnclosed (bytes : List UInt8) : Bool :=
  2 ≤ bytes.length &&
    (bytes.head?, bytes.getLast?) ∈ [(some 0x7B, some 0x7D), (some 0x5B, some 0x5D)]

def validJsonStructure (bytes : List UInt8) : Bool :=
  isEnclosed (trimmed bytes) && accepts ⟨[], false, false⟩ (trimmed bytes)

/-- The brackets outside string literals, if every literal is closed. -/
def brackets : Bool → List UInt8 → Option (List UInt8)
  | inString, [] => if inString then none else some []
  | true, 0x5C :: _ :: rest => brackets true rest
  | true, byte :: rest => brackets (byte != 0x22) rest
  | false, byte :: rest =>
    if byte = 0x22 then brackets true rest
    else if isOpening byte || (expected byte).isSome then (brackets false rest).map (byte :: ·)
    else brackets false rest

inductive Balanced : List UInt8 → Prop
  | nil : Balanced []
  | insert {before after : List UInt8} {opening closing : UInt8}
      (h : expected closing = some opening) (hrest : Balanced (before ++ after)) :
      Balanced (before ++ opening :: closing :: after)

/-- The text is in order and begins and ends with a matching pair. -/
def InOrder (bytes : List UInt8) : Prop :=
  isEnclosed (trimmed bytes) = true ∧ ∃ l ∈ brackets false (trimmed bytes), Balanced l

/-- Behind the brackets on the stack, before any that does not match, a
bracket is opened inside sixteen open ones. -/
def overflows : List UInt8 → List UInt8 → Bool
  | _, [] => false
  | stack, byte :: rest =>
    if isOpening byte then 16 ≤ stack.length || overflows (byte :: stack) rest
    else match stack with
      | [] => false
      | top :: stack => expected byte == some top && overflows stack rest

/-- The scan of the text meets a bracket that is opened inside sixteen. -/
def Overflows (bytes : List UInt8) : Prop :=
  isEnclosed (trimmed bytes) = true ∧ ∃ l ∈ brackets false (trimmed bytes), overflows [] l = true

/-- The brackets close those on the stack and each other; one that is opened
where there is no room is passed over. -/
def closes (room : ℕ → Bool) : List UInt8 → List UInt8 → Bool
  | stack, [] => stack.isEmpty
  | stack, byte :: rest =>
    if isOpening byte then closes room (if room stack.length then byte :: stack else stack) rest
    else match stack with
      | [] => false
      | top :: stack => expected byte == some top && closes room stack rest

/-- The stack of the check has room for sixteen brackets. -/
def inStack (depth : ℕ) : Bool :=
  depth < 16

/-- A stack without a bound. -/
def unbounded (_ : ℕ) : Bool :=
  true

theorem opening_of_expected {opening closing : UInt8} (h : expected closing = some opening) :
    isOpening opening = true ∧ isOpening closing = false := by
  unfold expected at h
  split at h
  · cases h
    decide
  · cases h
    decide
  · cases h

theorem closes_insert {opening closing : UInt8} (h : expected closing = some opening)
    (before after : List UInt8) : ∀ stack, closes unbounded stack
      (before ++ opening :: closing :: after) = closes unbounded stack (before ++ after) := by
  obtain ⟨hopening, hclosing⟩ := opening_of_expected h
  induction before with
  | nil => simp [closes, unbounded, hopening, hclosing, h]
  | cons byte before ih =>
    intro stack
    simp only [cons_append, closes, ih]

theorem balanced_of_closes (rest : List UInt8) : ∀ {stack}, closes unbounded stack rest = true →
    Balanced (stack.reverse ++ rest) := by
  induction rest with
  | nil => simp +contextual [closes, Balanced.nil]
  | cons byte rest ih =>
    intro stack h
    unfold closes at h
    split at h
    · simpa [unbounded] using ih h
    split at h
    · cases h
    · next top stack =>
      rw [Bool.and_eq_true, beq_iff_eq] at h
      rw [reverse_cons, append_assoc]
      exact .insert h.1 (ih h.2)

theorem closes_iff {rest : List UInt8} : closes unbounded [] rest = true ↔ Balanced rest := by
  refine ⟨fun h => balanced_of_closes rest h, fun h => ?_⟩
  induction h with
  | nil => rfl
  | insert h _ ih => rwa [closes_insert h]

/-! ## The stack of the check -/

/-- By induction on the text: of the octets only the brackets count. -/
theorem accepts_iff (inString : Bool) (bytes : List UInt8) : ∀ stack,
    accepts ⟨stack, inString, false⟩ bytes = true ↔
      ∃ l ∈ brackets inString bytes, closes inStack stack l = true := by
  fun_induction brackets inString bytes with
  | case1 => simp [accepts]
  | case2 inString hopen => simp_all [accepts, closes]
  | case3 rest _ ih => simpa [accepts, scanByte] using ih
  | case4 byte rest hpair ih =>
    intro stack
    by_cases hescape : byte = 0x5C
    · cases rest with
      | nil => simp [accepts, scanByte, brackets, hescape]
      | cons next rest => exact (hpair next rest hescape rfl).elim
    · by_cases hquote : byte = 0x22
      · simpa [accepts, scanByte, hquote] using ih stack
      · rw [bne_iff_ne.mpr hquote] at ih ⊢
        simpa [accepts, scanByte, hescape, hquote] using ih stack
  | case5 rest ih => simpa [accepts, scanByte] using ih
  | case6 byte rest hquote hbracket ih =>
    intro stack
    cases hexpected : expected byte with
    | none =>
      have hopen : isOpening byte = true := by simpa [hexpected] using hbracket
      by_cases hdepth : stack.length < 16
      · simpa [accepts, scanByte, hquote, hopen, hdepth, closes, inStack] using ih (byte :: stack)
      · simpa [accepts, scanByte, hquote, hopen, hdepth, hexpected, closes, inStack] using ih stack
    | some opening =>
      have hopen := (opening_of_expected hexpected).2
      cases stack with
      | nil => simp [accepts, scanByte, hquote, hopen, hexpected, closes]
      | cons top stack =>
        by_cases htop : top = opening
        · simpa [accepts, scanByte, hquote, hopen, hexpected, htop, closes] using ih stack
        · simp [accepts, scanByte, hquote, hopen, hexpected, htop, closes, Ne.symm htop]
  | case7 byte rest hquote hbracket ih =>
    intro stack
    obtain ⟨hopen, hexpected⟩ : isOpening byte = false ∧ expected byte = none := by
      simpa using hbracket
    simpa [accepts, scanByte, hquote, hopen, hexpected] using ih stack

/-- There are at most as many closing brackets as opened ones, and as many if
none is passed over. -/
theorem count_of_closes {room : ℕ → Bool} {stack l : List UInt8} (h : closes room stack l = true) :
    l.countP (!isOpening ·) ≤ stack.length + l.countP isOpening ∧
      (room = unbounded → l.countP (!isOpening ·) = stack.length + l.countP isOpening) := by
  fun_induction closes room stack l with
  | case1 stack => simp [isEmpty_iff.mp h]
  | case2 stack byte rest hopen ih =>
    obtain ⟨hle, heq⟩ := ih h
    simp only [countP_cons, hopen, Bool.not_true, Bool.false_eq_true, if_false, if_true]
    refine ⟨?_, ?_⟩
    · split_ifs at hle
      · rw [length_cons] at hle
        omega
      · omega
    · rintro rfl
      rw [heq rfl, unbounded, if_pos rfl, length_cons]
      omega
  | case3 => cases h
  | case4 byte rest hopen top stack ih =>
    obtain ⟨hle, heq⟩ := ih (Bool.and_eq_true_iff.mp h).2
    simp only [countP_cons, hopen, Bool.not_false, Bool.false_eq_true, if_false, if_true,
      length_cons]
    exact ⟨by omega, fun hroom => by rw [heq hroom]; omega⟩

/-- Until a bracket is opened inside sixteen the bound makes no difference.
Such a bracket is passed over, so that the two stacks cannot both come out
empty. -/
theorem closes_inStack (stack l : List UInt8) :
    if overflows stack l then closes inStack stack l = true → closes unbounded stack l = false
    else closes inStack stack l = closes unbounded stack l := by
  fun_induction overflows stack l with
  | case1 => rfl
  | case2 stack byte rest hopen ih =>
    simp only [closes, hopen, if_true, unbounded]
    by_cases hdepth : stack.length < 16
    · rw [inStack, decide_eq_true hdepth, if_pos rfl, decide_eq_false (by omega), Bool.false_or]
      exact ih
    · rw [inStack, decide_eq_false hdepth, decide_eq_true (by omega), Bool.true_or, if_pos rfl,
        if_neg Bool.false_ne_true]
      intro hcheck
      by_contra hboth
      have hle := (count_of_closes hcheck).1
      have heq := (count_of_closes (Bool.of_not_eq_false hboth)).2 rfl
      rw [length_cons] at heq
      omega
  | case3 byte rest hopen => simp [closes, hopen]
  | case4 byte rest hopen top stack ih =>
    simp only [closes, hopen]
    cases expected byte == some top with
    | false => rfl
    | true => exact ih

/-- The check is exact for texts in which it meets no bracket that is opened
inside sixteen open ones.  Of the other texts it accepts none that is in
order. -/
theorem validJsonStructure_iff (bytes : List UInt8) :
    (¬ Overflows bytes → (validJsonStructure bytes = true ↔ InOrder bytes)) ∧
      (Overflows bytes → validJsonStructure bytes = true → ¬ InOrder bytes) := by
  have hvalid : validJsonStructure bytes = true ↔ isEnclosed (trimmed bytes) = true ∧
      ∃ l ∈ brackets false (trimmed bytes), closes inStack [] l = true := by
    rw [validJsonStructure, Bool.and_eq_true, accepts_iff]
  rw [hvalid, InOrder, Overflows]
  cases hbrackets : brackets false (trimmed bytes) with
  | none => simp
  | some l =>
    have hstack := closes_inStack [] l
    simp only [Option.mem_some_iff, exists_eq_left', ← closes_iff]
    split_ifs at hstack with hover
    · simp +contextual [hover, hstack]
    · simp [hover, hstack]

/-- The text `["]", []]`. -/
def nestedText : List UInt8 :=
  [0x5B, 0x22, 0x5D, 0x22, 0x2C, 0x20, 0x5B, 0x5D, 0x5D]

theorem nestedText_inOrder : InOrder nestedText :=
  ((validJsonStructure_iff nestedText).1 (by simp [Overflows]; decide)).mp (by decide)

/-- Of seventeen brackets that are opened some are closed. -/
def deepText (closed : ℕ) : List UInt8 :=
  replicate 17 0x5B ++ replicate closed 0x5D

/-- One bracket too few is accepted, and the right number is not. -/
theorem deepText_misjudged :
    (validJsonStructure (deepText 16) = true ∧ ¬ InOrder (deepText 16)) ∧
    validJsonStructure (deepText 17) = false ∧ InOrder (deepText 17) := by
  simp only [InOrder, ← closes_iff]
  decide +kernel

end ExpOS.Json
