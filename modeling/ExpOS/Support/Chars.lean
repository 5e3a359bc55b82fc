import Mathlib.Data.List.DropRight
import ExpOS.Support.Bytes

/-!
# Character strings

Strings are lists of characters.  They are trimmed of white space on both
sides and encoded in UTF-8; an encoding without any octet above 127 spells its
characters one by one.
-/

namespace ExpOS

open List

/-- The characters with the Unicode property `White_Space`. -/
def isWhitespace (c : Char) : Bool :=
  (9 ≤ c.toNat && c.toNat ≤ 13) || c.toNat == 0x20 || c.toNat == 0x85 ||
    c.toNat == 0xA0 || c.toNat == 0x1680 ||
    (0x2000 ≤ c.toNat && c.toNat ≤ 0x200A) || c.toNat == 0x2028 ||
    c.toNat == 0x2029 || c.toNat == 0x202F || c.toNat == 0x205F ||
    c.toNat == 0x3000

/-- The string without white space at its ends. -/
def trim (s : List Char) : List Char :=
  (s.dropWhile isWhitespace).rdropWhile isWhitespace

/-- The lines of a text between line feeds.  A line that is not ended by one
keeps its carriage return, and an empty one does not count. -/
def linesBetween {α : Type*} [DecidableEq α] (feed carriageReturn : α) (s : List α) :
    List (List α) :=
  let parts := s.splitOn feed
  let last := parts.getLastD []
  let withoutReturn line :=
    if line.getLast? = some carriageReturn then line.dropLast else line
  parts.dropLast.map withoutReturn ++ if last = [] then [] else [last]

def lines (s : List Char) : List (List Char) := linesBetween '\n' '\r' s

/-- The parts of a string before and behind the first separator. -/
def splitOnce (separator : Char) (s : List Char) : Option (List Char × List Char) :=
  match s.span (· != separator) with
  | (_, []) => none
  | (before, _ :: behind) => some (before, behind)

/-- The octets of a string. -/
def utf8 (s : List Char) : Bytes :=
  s.flatMap String.utf8EncodeChar

def isContinuation (octet : UInt8) : Bool := 0x80 ≤ octet && octet ≤ 0xBF

/-- The second octet of a longer encoding, which spells no number that a
shorter one spells, no half of a pair and nothing behind the last character. -/
def isSecond (first octet : UInt8) : Bool :=
  isContinuation octet && !(first == 0xE0 && octet < 0xA0) && !(first == 0xED && 0x9F < octet) &&
    !(first == 0xF0 && octet < 0x90) && !(first == 0xF4 && 0x8F < octet)

/-- The string that octets encode. -/
def fromUtf8 : Bytes → Option (List Char)
  | [] => some []
  | a :: rest =>
    if a < 0x80 then (fromUtf8 rest).map (Char.ofNat a.toNat :: ·)
    else
      match rest with
      | [] => none
      | b :: rest =>
        if 0xC2 ≤ a ∧ a ≤ 0xDF ∧ isContinuation b then
          (fromUtf8 rest).map (Char.ofNat ((a.toNat - 0xC0) * 64 + (b.toNat - 0x80)) :: ·)
        else
          match rest with
          | [] => none
          | c :: rest =>
            let high := (b.toNat - 0x80) * 64 + (c.toNat - 0x80)
            if 0xE0 ≤ a ∧ a ≤ 0xEF ∧ isSecond a b ∧ isContinuation c then
              (fromUtf8 rest).map (Char.ofNat ((a.toNat - 0xE0) * 4096 + high) :: ·)
            else
              match rest with
              | [] => none
              | d :: rest =>
                if 0xF0 ≤ a ∧ a ≤ 0xF4 ∧ isSecond a b ∧ isContinuation c ∧ isContinuation d then
                  (fromUtf8 rest).map (Char.ofNat
                    ((a.toNat - 0xF0) * 262144 + high * 64 + (d.toNat - 0x80)) :: ·)
                else none

/-- The characters that ASCII octets spell. -/
def asciiChars (octets : Bytes) : List Char :=
  octets.map fun octet => Char.ofNat octet.toNat

variable {s : List Char}

theorem utf8_eq_nil : utf8 s = [] ↔ s = [] := by
  constructor
  · intro h
    cases s with
    | nil => rfl
    | cons c rest =>
      rw [utf8, flatMap_cons, append_eq_nil_iff] at h
      have hne : String.utf8EncodeChar c ≠ [] := by
        simp only [String.utf8EncodeChar]
        split
        · simp
        split
        · simp
        · split
          · simp
          · simp
      exact absurd h.1 hne
  · rintro rfl
    rfl

/-- A character whose encoding has no octet above 127 is encoded by its own
number. -/
theorem utf8EncodeChar_of_ascii {c : Char} (h : ∀ b ∈ String.utf8EncodeChar c, b < 128) :
    String.utf8EncodeChar c = [UInt8.ofNat c.toNat] ∧ c.toNat < 128 := by
  have hhigh : ∀ n, 128 ≤ n → n < 256 → ¬ UInt8.ofNat n < 128 := by
    intro n hn hlt
    rw [UInt8.lt_iff_toNat_lt, UInt8.toNat_ofNat']
    simp only [UInt8.toNat_ofNat]
    omega
  have hv : c.val.toNat = c.toNat := rfl
  simp only [String.utf8EncodeChar] at h ⊢
  split at h
  · next hle =>
      rw [if_pos hle]
      exact ⟨rfl, by omega⟩
  · split at h
    · exact absurd (h _ mem_cons_self) (hhigh _ (by omega) (by omega))
    · split at h
      · exact absurd (h _ mem_cons_self) (hhigh _ (by omega) (by omega))
      · exact absurd (h _ mem_cons_self) (hhigh _ (by omega) (by omega))

/-- A string with an ASCII encoding is spelled by it. -/
theorem asciiChars_utf8 (h : ∀ b ∈ utf8 s, b < 128) : asciiChars (utf8 s) = s := by
  induction s with
  | nil => rfl
  | cons c rest ih =>
    rw [utf8, flatMap_cons] at h ⊢
    obtain ⟨hc, hlt⟩ := utf8EncodeChar_of_ascii fun b hb => h b (mem_append_left _ hb)
    have hrest := ih fun b hb => h b (mem_append_right _ hb)
    have hchar : Char.ofNat (UInt8.ofNat c.toNat).toNat = c := by
      rw [UInt8.toNat_ofNat', Nat.mod_eq_of_lt (by omega), Char.ofNat_toNat]
    rw [hc]
    simp only [asciiChars, utf8, cons_append, nil_append, map_cons, hchar] at hrest ⊢
    rw [hrest]

@[simp] theorem trim_trim (s : List Char) : trim (trim s) = trim s := by
  have hhead : (trim s).dropWhile isWhitespace = trim s := by
    rw [dropWhile_eq_self_iff]
    intro hlen
    have hpre : trim s <+: s.dropWhile isWhitespace := rdropWhile_prefix _ _
    have hpos : 0 < (s.dropWhile isWhitespace).length := hlen.trans_le hpre.length_le
    rw [List.IsPrefix.getElem hpre hlen]
    have hfirst := head_dropWhile_not isWhitespace (ne_nil_of_length_pos hpos)
    rw [head_eq_getElem] at hfirst
    simp [hfirst]
  rw [trim, hhead, trim, rdropWhile_idempotent]

end ExpOS
