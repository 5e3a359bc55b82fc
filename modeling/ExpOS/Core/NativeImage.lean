import ExpOS.Support.Bytes

/-!
# EXF1 images

An executable Form holds a relocation-free image: a header of 24 octets, the
code and the initialized data.  The parser refuses every image whose segments
do not fill it exactly.
-/

namespace ExpOS

def nativeImageMagic : Bytes := asciiBytes "EXF1"
def nativeImageHeader : ℕ := 24
def nativeImageLimit : ℕ := 32 * 1024
def nativeV1CodeLimit : ℕ := 4096
def nativeV2CodeLimit : ℕ := 8 * 4096
def nativeV2DataLimit : ℕ := 6 * 4096

inductive NativeImageError where
  | header
  | unsupported
  | length
  | entry
deriving DecidableEq

structure NativeImage where
  formatVersion : ℕ
  code : Bytes
  data : Bytes
  zeroBytes : ℕ
  entry : ℕ

namespace NativeImage

/-- The little-endian 16-bit word at an offset. -/
def word (bytes : Bytes) (offset : ℕ) : ℕ :=
  Bytes.fromLeBytes ((bytes.drop offset).take 2)

def codeLimit (formatVersion : ℕ) : ℕ :=
  if formatVersion = 1 then nativeV1CodeLimit else nativeV2CodeLimit

def dataLimit (formatVersion : ℕ) : ℕ :=
  if formatVersion = 1 then 4096 - 256 else nativeV2DataLimit - 256

def parse (bytes : Bytes) : Except NativeImageError NativeImage :=
  if bytes.length < nativeImageHeader ∨ ¬ nativeImageMagic <+: bytes then
    .error .header
  else if (word bytes 4 ≠ 1 ∧ word bytes 4 ≠ 2) ∨ word bytes 6 ≠ 1 ∨
      word bytes 8 ≠ 1 ∨ word bytes 10 ≠ 0 ∨ (bytes.drop 20).take 4 ≠ [0, 0, 0, 0] then
    .error .unsupported
  else if bytes.length > nativeImageLimit ∨ word bytes 12 = 0 ∨
      word bytes 12 > codeLimit (word bytes 4) ∨
      word bytes 14 + word bytes 16 > dataLimit (word bytes 4) ∨
      nativeImageHeader + word bytes 12 + word bytes 14 ≠ bytes.length then
    .error .length
  else if word bytes 18 ≥ word bytes 12 then
    .error .entry
  else
    .ok
      { formatVersion := word bytes 4
        code := (bytes.drop nativeImageHeader).take (word bytes 12)
        data := bytes.drop (nativeImageHeader + word bytes 12)
        zeroBytes := word bytes 16
        entry := word bytes 18 }

end NativeImage

end ExpOS
