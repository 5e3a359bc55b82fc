import ExpOS.Core.Identity
import ExpOS.Core.NativeImage
import ExpOS.Support.Cursor

/-!
# The on-device compiler

The compiler accepts a small profile of three languages: it looks for a main
function, for one call that logs a string literal and for one exit result, and
emits an EXF1 image that logs the string and exits with the result.

Sources are the octets of a text.  Everything behind the first checks works on
ASCII, where characters and octets are the same.
-/

namespace ExpOS

open List Outcome NativeImage

inductive NativeLanguage where
  | c
  | rust
  | go
deriving DecidableEq

namespace NativeLanguage

def entryMarkers : NativeLanguage → List Bytes
  | c => [asciiBytes "main("]
  | rust => [asciiBytes "fn main("]
  | go => [asciiBytes "func main("]

def logMarkers : NativeLanguage → List Bytes
  | c => [asciiBytes "expos_log(", asciiBytes "puts("]
  | rust => [asciiBytes "expos::log(", asciiBytes "log("]
  | go => [asciiBytes "expos.Log("]

def exitMarkers : NativeLanguage → List Bytes
  | c => [asciiBytes "expos_exit(", asciiBytes "return "]
  | rust => [asciiBytes "expos::exit(", asciiBytes "return "]
  | go => [asciiBytes "expos.Exit("]

end NativeLanguage

inductive CompileError where
  | sourceTooLarge
  | nonAscii
  | missingEntry
  | invalidString
  | invalidResult
  | imageTooLarge
deriving DecidableEq

namespace NativeCompiler

def userData : ℕ := 0x400000001000
def abiMagic : ℕ := 0x4558504f53414249
def dataOffset : ℕ := 256
def dataCapacity : ℕ := 4096 - dataOffset
def sourceLimit : ℕ := 32 * 1024
def compilerImageLimit : ℕ := 4096
def codeCapacity : ℕ := 192

/-! ## Reading the source -/

/-- White space of an ASCII text. -/
def isSpace (octet : UInt8) : Bool :=
  (9 ≤ octet && octet ≤ 13) || octet == 0x20

def trimStart (text : Bytes) : Bytes := text.dropWhile isSpace

/-- The earlier of two places, the first one if they are the same. -/
def earlier (source : Bytes) (best : Option Bytes) (rest : Bytes) : Option Bytes :=
  match best with
  | none => some rest
  | some found =>
    if source.length - rest.length < source.length - found.length then
      some rest
    else some found

/-- What follows the first marker. -/
def findAfter (source : Bytes) (markers : List Bytes) : Option Bytes :=
  (markers.filterMap fun marker =>
    (findBytes marker source).map fun place =>
      source.drop (place + marker.length)).foldl (earlier source) none

def isDigit (octet : UInt8) : Bool := 0x30 ≤ octet && octet ≤ 0x39

/-- The number that decimal digits spell. -/
def decimalValue (digits : Bytes) : ℕ :=
  digits.foldl (fun value octet => value * 10 + (octet.toNat - 0x30)) 0

def parseResult (arguments : Bytes) : Except CompileError ℕ :=
  let digits := (trimStart arguments).takeWhile isDigit
  if digits = [] then .error .invalidResult
  else if decimalValue digits < 2 ^ 64 then .ok (decimalValue digits)
  else .error .invalidResult

/-- The octet that a backslash and this one stand for. -/
def unescape (escaped : UInt8) : Option UInt8 :=
  if escaped = 0x6E then some 0x0A
  else if escaped = 0x72 then some 0x0D
  else if escaped = 0x74 then some 0x09
  else if escaped = 0x5C then some 0x5C
  else if escaped = 0x27 then some 0x27
  else if escaped = 0x22 then some 0x22
  else none

def isControl (octet : UInt8) : Bool := octet < 0x20 || octet == 0x7F

/-- Store one decoded octet and go on. -/
def store (output : Bytes) (octet : UInt8) : Except CompileError Bytes :=
  if output.length < dataCapacity then .ok (output ++ [octet])
  else .error .imageTooLarge

/-- The loop over a string literal, behind its opening quote. -/
def parseLiteral (quote : UInt8) (output : Bytes) : Bytes → Except CompileError Bytes
  | [] => .error .invalidString
  | octet :: rest =>
    if octet = quote then .ok output
    else if octet = 0x5C then
      match rest with
      | [] => .error .invalidString
      | escaped :: rest =>
        match unescape escaped with
        | none => .error .invalidString
        | some decoded =>
          match store output decoded with
          | .error failure => .error failure
          | .ok output => parseLiteral quote output rest
    else if isControl octet then .error .invalidString
    else
      match store output octet with
      | .error failure => .error failure
      | .ok output => parseLiteral quote output rest

def parseString (arguments : Bytes) : Except CompileError Bytes :=
  match trimStart arguments with
  | [] => .error .invalidString
  | quote :: body =>
    if quote = 0x27 ∨ quote = 0x22 then parseLiteral quote [] body
    else .error .invalidString

def parseMessage (language : NativeLanguage) (source : Bytes) : Except CompileError Bytes :=
  match findAfter source language.logMarkers with
  | some arguments => parseString arguments
  | none => .ok []

def parseExit (language : NativeLanguage) (source : Bytes) : Except CompileError ℕ :=
  match findAfter source language.exitMarkers with
  | some arguments => parseResult arguments
  | none => .ok 0

/-! ## Emitting code -/

/-- Append to the code buffer. -/
def emit (octets : Bytes) : Writer CompileError Unit :=
  Writer.put .imageTooLarge codeCapacity octets

def setRequestCall (call : ℕ) (logHandle : Bool) : Writer CompileError Unit := do
  emit [0x66, 0xC7, 0x43, 0x02]
  emit (Bytes.toLeBytes 2 call)
  emit (if logHandle then [0x44, 0x89, 0x6B, 0x14]
    else [0x44, 0x89, 0x63, 0x14])

def emitCall : Writer CompileError Unit := do
  emit [0x48, 0x89, 0xDF]
  emit [0x48, 0x8D, 0x73, 0x50]
  emit [0x48, 0xB8]
  emit (Bytes.toLeBytes 8 abiMagic)
  emit [0xCD, 0x80]

def emitLog (messageLength : ℕ) : Writer CompileError Unit := do
  setRequestCall 1 true
  emit [0x48, 0xC7, 0x43, 0x18]
  emit (Bytes.toLeBytes 4 dataOffset)
  emit [0x48, 0xC7, 0x43, 0x20]
  emit (Bytes.toLeBytes 4 messageLength)
  emitCall

def emitExit (result : ℕ) : Writer CompileError Unit := do
  setRequestCall 8 false
  emit [0x48, 0xB8]
  emit (Bytes.toLeBytes 8 result)
  emit [0x48, 0x89, 0x43, 0x18]
  emitCall
  emit [0x0F, 0x0B]

def emitProgram (messageLength result : ℕ) : Writer CompileError Unit := do
  emit [0x41, 0x89, 0xD4]
  emit [0x41, 0x89, 0xCD]
  emit [0x48, 0xBB]
  emit (Bytes.toLeBytes 8 userData)
  if messageLength ≠ 0 then
    emitLog messageLength
    emitExit result
  else
    emitExit result

/-- The image around code and message; what the source leaves at zero is
zero. -/
def imageBytes (code message : Bytes) : Bytes :=
  asciiBytes "EXF1" ++ Bytes.toLeBytes 2 1 ++ Bytes.toLeBytes 2 1 ++
    Bytes.toLeBytes 2 1 ++ [0, 0] ++ Bytes.toLeBytes 2 code.length ++
    Bytes.toLeBytes 2 message.length ++ [0, 0, 0, 0, 0, 0, 0, 0] ++ (code ++ message)

/-- Compute the length of the image and lay it out. -/
def link (code message : Bytes) : Outcome CompileError Bytes := do
  let length ← Outcome.addBelow usizeLimit nativeImageHeader code.length
  let total ← Outcome.addBelow usizeLimit length message.length
  if total > compilerImageLimit then .fail .imageTooLarge
  else .done (imageBytes code message)

def compile (language : NativeLanguage) (source : Bytes) : Outcome CompileError Bytes :=
  if source.length > sourceLimit then .fail .sourceTooLarge
  else if isAscii source = false then .fail .nonAscii
  else if language.entryMarkers.any
      (fun marker => (findBytes marker source).isSome) = false then
    .fail .missingEntry
  else
    match parseMessage language source with
    | .error failure => .fail failure
    | .ok message =>
      match parseExit language source with
      | .error failure => .fail failure
      | .ok result =>
        match (emitProgram message.length result).run [] with
        | (.done (), code) => link code message
        | (.fail failure, _) => .fail failure
        | (.halt, _) => .halt

/-! ## The string that is logged -/

/-- What follows an opening quote spells a string. -/
inductive Spells (quote : UInt8) : Bytes → Bytes → Prop
  | close (rest : Bytes) : Spells quote (quote :: rest) []
  | plain {octet : UInt8} {rest message : Bytes} (hquote : octet ≠ quote)
      (hbackslash : octet ≠ 0x5C) (hcontrol : isControl octet = false)
      (h : Spells quote rest message) :
      Spells quote (octet :: rest) (octet :: message)
  | escape {escaped decoded : UInt8} {rest message : Bytes}
      (hquote : 0x5C ≠ quote) (hescape : unescape escaped = some decoded)
      (h : Spells quote rest message) :
      Spells quote (0x5C :: escaped :: rest) (decoded :: message)

variable {quote : UInt8} {input first second : Bytes}

/-- A literal spells one string. -/
theorem Spells.unique
    (h : Spells quote input first) (h' : Spells quote input second) : first = second := by
  induction h generalizing second with
  | close rest =>
    cases h' with
    | close => rfl
    | plain hquote => exact absurd rfl hquote
    | escape hquote => exact absurd rfl hquote
  | plain hquote hbackslash _ _ ih =>
    cases h' with
    | close => exact absurd rfl hquote
    | plain _ _ _ hrest => rw [ih hrest]
    | escape => exact absurd rfl hbackslash
  | escape hquote hescape _ ih =>
    cases h' with
    | close => exact absurd rfl hquote
    | plain _ hbackslash => exact absurd rfl hbackslash
    | escape _ hescape' hrest =>
      rw [hescape] at hescape'
      rw [ih hrest, Option.some.inj hescape']

/-- The string that the first logging call of the source names; none is
logged without such a call. -/
def Logs (language : NativeLanguage) (source message : Bytes) : Prop :=
  match findAfter source language.logMarkers with
  | none => message = []
  | some arguments =>
    ∃ quote body, (quote = 0x27 ∨ quote = 0x22) ∧
      trimStart arguments = quote :: body ∧ Spells quote body message

variable {language : NativeLanguage} {source : Bytes}

theorem Logs.unique (h : Logs language source first)
    (h' : Logs language source second) : first = second := by
  unfold Logs at h h'
  cases hfound : findAfter source language.logMarkers with
  | none =>
    rw [hfound] at h h'
    exact h.trans h'.symm
  | some arguments =>
    rw [hfound] at h h'
    obtain ⟨quote, body, -, hbody, hfirst⟩ := h
    obtain ⟨quote', body', -, hbody', hsecond⟩ := h'
    rw [hbody] at hbody'
    cases hbody'
    exact hfirst.unique hsecond

variable {output : Bytes}

theorem store_eq_ok {stored : Bytes} {octet : UInt8} (h : store output octet = .ok stored) :
    stored = output ++ [octet] ∧ stored.length ≤ dataCapacity := by
  unfold store at h
  split at h
  · next hroom =>
      obtain rfl := Except.ok.inj h
      refine ⟨rfl, ?_⟩
      rw [length_append]
      exact hroom
  · cases h

variable {message : Bytes}

/-- The loop appends what the literal spells, as far as the data segment
goes. -/
theorem parseLiteral_eq_ok
    (houtput : output.length ≤ dataCapacity) (h : parseLiteral quote output input = .ok message) :
    message.length ≤ dataCapacity ∧
      ∃ spelled, Spells quote input spelled ∧ message = output ++ spelled := by
  fun_induction parseLiteral quote output input with
  | case1 => cases h
  | case2 output rest =>
    cases h
    exact ⟨houtput, [], .close rest, (append_nil _).symm⟩
  | case3 => cases h
  | case4 => cases h
  | case5 => cases h
  | case6 output escaped rest decoded hescape stored hstore hquote ih =>
    obtain ⟨rfl, hstored⟩ := store_eq_ok hstore
    obtain ⟨hlength, spelled, hspelled, rfl⟩ := ih hstored h
    refine ⟨hlength, _, .escape hquote hescape hspelled, ?_⟩
    rw [append_assoc, singleton_append]
  | case7 => cases h
  | case8 => cases h
  | case9 output octet rest hquote hbackslash hcontrol stored hstore ih =>
    obtain ⟨rfl, hstored⟩ := store_eq_ok hstore
    obtain ⟨hlength, spelled, hspelled, rfl⟩ := ih hstored h
    refine ⟨hlength, _, .plain hquote hbackslash
      (Bool.eq_false_of_not_eq_true hcontrol) hspelled, ?_⟩
    rw [append_assoc, singleton_append]

/-- The message is the one the source logs, and the data segment holds it. -/
theorem parseMessage_eq_ok (h : parseMessage language source = .ok message) :
    Logs language source message ∧ message.length ≤ dataCapacity := by
  unfold parseMessage at h
  unfold Logs
  split at h
  · next arguments harguments =>
      rw [harguments]
      unfold parseString at h
      split at h
      · cases h
      rename_i quote body hbody
      split at h
      · next hquote =>
          obtain ⟨hlength, spelled, hspelled, rfl⟩ := parseLiteral_eq_ok (Nat.zero_le _) h
          exact ⟨⟨quote, body, hquote, hbody, hspelled⟩, hlength⟩
      · cases h
  rename_i hnone
  rw [hnone]
  cases h
  exact ⟨rfl, Nat.zero_le _⟩

/-! ## The code that is emitted -/

def requestCall (call : ℕ) (logHandle : Bool) : Bytes :=
  [0x66, 0xC7, 0x43, 0x02] ++ (Bytes.toLeBytes 2 call ++
    if logHandle then [0x44, 0x89, 0x6B, 0x14]
    else [0x44, 0x89, 0x63, 0x14])

def systemCall : Bytes :=
  [0x48, 0x89, 0xDF] ++ ([0x48, 0x8D, 0x73, 0x50] ++ ([0x48, 0xB8] ++
    (Bytes.toLeBytes 8 abiMagic ++ [0xCD, 0x80])))

def logCode (messageLength : ℕ) : Bytes :=
  requestCall 1 true ++ ([0x48, 0xC7, 0x43, 0x18] ++
    (Bytes.toLeBytes 4 dataOffset ++ ([0x48, 0xC7, 0x43, 0x20] ++
      (Bytes.toLeBytes 4 messageLength ++ systemCall))))

def exitCode (result : ℕ) : Bytes :=
  requestCall 8 false ++ ([0x48, 0xB8] ++ (Bytes.toLeBytes 8 result ++
    ([0x48, 0x89, 0x43, 0x18] ++ (systemCall ++ [0x0F, 0x0B]))))

/-- The whole code. -/
def program (messageLength result : ℕ) : Bytes :=
  [0x41, 0x89, 0xD4] ++ ([0x41, 0x89, 0xCD] ++ ([0x48, 0xBB] ++ (Bytes.toLeBytes 8 userData ++
      if messageLength ≠ 0 then logCode messageLength ++ exitCode result
      else exitCode result)))

theorem emits_emit (octets : Bytes) : Writer.Emits codeCapacity (emit octets) octets :=
  Writer.emits_put _ octets

theorem emits_setRequestCall (call : ℕ) (logHandle : Bool) :
    Writer.Emits codeCapacity (setRequestCall call logHandle) (requestCall call logHandle) :=
  (emits_emit _).bind ((emits_emit _).bind (emits_emit _))

theorem emits_emitCall : Writer.Emits codeCapacity emitCall systemCall :=
  (emits_emit _).bind ((emits_emit _).bind ((emits_emit _).bind
    ((emits_emit _).bind (emits_emit _))))

theorem emits_emitLog (messageLength : ℕ) : Writer.Emits codeCapacity (emitLog messageLength)
      (logCode messageLength) :=
  (emits_setRequestCall 1 true).bind ((emits_emit _).bind ((emits_emit _).bind ((emits_emit _).bind
      ((emits_emit _).bind emits_emitCall))))

theorem emits_emitExit (result : ℕ) :
    Writer.Emits codeCapacity (emitExit result) (exitCode result) :=
  (emits_setRequestCall 8 false).bind ((emits_emit _).bind ((emits_emit _).bind ((emits_emit _).bind
      (emits_emitCall.bind (emits_emit _)))))

variable (messageLength result : ℕ)

theorem emits_emitProgram :
    Writer.Emits codeCapacity (emitProgram messageLength result)
      (program messageLength result) := by
  refine (emits_emit _).bind ((emits_emit _).bind ((emits_emit _).bind ((emits_emit _).bind ?_)))
  by_cases hlog : messageLength ≠ 0
  · rw [if_pos hlog, if_pos hlog]
    exact (emits_emitLog messageLength).bind (emits_emitExit result)
  · rw [if_neg hlog, if_neg hlog]
    exact emits_emitExit result

/-- The code has 61 octets, with a message 106. -/
theorem length_program : (program messageLength result).length =
      if messageLength ≠ 0 then 106 else 61 := by
  by_cases hlog : messageLength ≠ 0
  · simp [program, logCode, exitCode, requestCall, systemCall, hlog]
  · simp [program, exitCode, requestCall, systemCall, hlog]

theorem length_program_le : 61 ≤ (program messageLength result).length ∧
      (program messageLength result).length ≤ 106 := by
  rw [length_program]
  split <;> omega

/-- The code buffer holds the code. -/
theorem emitProgram_run : (emitProgram messageLength result).run [] =
      (.done (), program messageLength result) := by
  have hlength := (length_program_le messageLength result).2
  have hcapacity : codeCapacity = 192 := rfl
  exact emits_emitProgram messageLength result [] (by rw [length_nil]; omega)

/-! ## The image that is linked -/

section Image

variable {code message : Bytes}

theorem length_imageBytes :
    (imageBytes code message).length = 24 + code.length + message.length := by
  simp [imageBytes, asciiBytes]
  omega

/-- Segments that fit are parsed back. -/
theorem parse_imageBytes (hcode : 0 < code.length) (hlimit : code.length ≤ codeCapacity)
    (hmessage : message.length ≤ dataCapacity) : NativeImage.parse (imageBytes code message) = .ok
      { formatVersion := 1, code, data := message, zeroBytes := 0
        entry := 0 } := by
  have hlength := @length_imageBytes code message
  have hcapacity : codeCapacity = 192 := rfl
  have hdata : dataCapacity = 3840 := rfl
  have hwords : word (imageBytes code message) 4 = 1 ∧
      word (imageBytes code message) 6 = 1 ∧
      word (imageBytes code message) 8 = 1 ∧
      word (imageBytes code message) 10 = 0 ∧
      word (imageBytes code message) 16 = 0 ∧
      word (imageBytes code message) 18 = 0 ∧
      ((imageBytes code message).drop 20).take 4 = [0, 0, 0, 0] := by
    refine ⟨?_, ?_, ?_, ?_, ?_, ?_, ?_⟩ <;>
      simp [word, imageBytes, asciiBytes, Bytes.toLeBytes, Bytes.fromLeBytes]
  have hcodeWord : word (imageBytes code message) 12 = code.length := by
    have htake : ((imageBytes code message).drop 12).take 2 = Bytes.toLeBytes 2 code.length := by
      simp [imageBytes, asciiBytes, Bytes.toLeBytes]
    rw [word, htake]
    exact Bytes.fromLeBytes_toLeBytes_of_lt (by omega)
  have hdataWord : word (imageBytes code message) 14 = message.length := by
    have htake : ((imageBytes code message).drop 14).take 2 = Bytes.toLeBytes 2 message.length := by
      simp [imageBytes, asciiBytes, Bytes.toLeBytes]
    rw [word, htake]
    exact Bytes.fromLeBytes_toLeBytes_of_lt (by omega)
  have hsegments : (imageBytes code message).drop 24 = code ++ message := by
    simp [imageBytes, asciiBytes, Bytes.toLeBytes]
  have hmagic : nativeImageMagic <+: imageBytes code message := by
    simp [imageBytes, nativeImageMagic]
  obtain ⟨h4, h6, h8, h10, h16, h18, h20⟩ := hwords
  have hheader : nativeImageHeader = 24 := rfl
  have hversion : codeLimit 1 = 4096 := rfl
  have hversion' : dataLimit 1 = 3840 := rfl
  have hmax : nativeImageLimit = 32768 := rfl
  rw [parse, if_neg, if_neg, if_neg, if_neg]
  · rw [h4, h16, h18, hcodeWord, hheader, hsegments, take_left, ← drop_drop, hsegments, drop_left]
  · rw [h18, hcodeWord]
    omega
  · rw [h4, h16, hcodeWord, hdataWord, hversion, hlength]
    omega
  · rw [h4, h6, h8, h10, h20]
    simp
  · rw [not_or, not_not]
    exact ⟨by omega, hmagic⟩

/-- Segments that fit are linked, and no sum overflows. -/
theorem link_eq (hlimit : code.length ≤ 106) (hmessage : message.length ≤ dataCapacity) :
    link code message = .done (imageBytes code message) := by
  have hheader : nativeImageHeader = 24 := rfl
  have hdata : dataCapacity = 3840 := rfl
  have husize : usizeLimit = 18446744073709551616 := by decide
  have himage : compilerImageLimit = 4096 := rfl
  rw [link, addBelow_eq (by omega), done_bind, addBelow_eq (by omega), done_bind, if_neg (by omega)]

end Image

/-! ## What the compiler returns -/

/-- A compiled image holds the program for the message and the result. -/
theorem compile_cases (language : NativeLanguage) (source : Bytes) :
    (∃ failure, compile language source = .fail failure) ∨
      ∃ message result, parseMessage language source = .ok message ∧ compile language source =
          .done (imageBytes (program message.length result) message) := by
  unfold compile
  iterate 4
    split
    · exact .inl ⟨_, rfl⟩
  rename_i message hmessage
  split
  · exact .inl ⟨_, rfl⟩
  rename_i result _
  refine .inr ⟨message, result, hmessage, ?_⟩
  rw [emitProgram_run]
  exact link_eq (length_program_le _ _).2 (parseMessage_eq_ok hmessage).2

/-- Whatever the source, compiling overflows nowhere, and what it returns is a
loadable image whose data is the string the source logs. -/
theorem compile_loadable (language : NativeLanguage) (source : Bytes) :
    compile language source ≠ .halt ∧ ∀ octets, compile language source = .done octets →
        ∃ image, NativeImage.parse octets = .ok image ∧ image.formatVersion = 1 ∧ image.entry = 0 ∧
          (∀ message, Logs language source message ↔ message = image.data) ∧
          image.code.length ≤ codeCapacity ∧ image.data.length ≤ dataCapacity ∧ octets.length =
            nativeImageHeader + image.code.length + image.data.length ∧
          octets.length ≤ compilerImageLimit := by
  rcases compile_cases language source with
    ⟨failure, hfail⟩ | ⟨message, result, hmessage, hdone⟩
  · rw [hfail]
    constructor
    · intro h
      cases h
    · intro octets h
      cases h
  · obtain ⟨hlogs, hlength⟩ := parseMessage_eq_ok hmessage
    obtain ⟨hpos, hle⟩ := length_program_le message.length result
    have hcapacity : codeCapacity = 192 := rfl
    have hdata : dataCapacity = 3840 := rfl
    have hlimit : compilerImageLimit = 4096 := rfl
    rw [hdone]
    constructor
    · intro h
      cases h
    intro octets h
    obtain rfl := Outcome.done.inj h
    refine ⟨_, parse_imageBytes (by omega) (by omega) hlength, rfl, rfl,
      fun message' => ⟨fun h => h.unique hlogs, ?_⟩, ?_, hlength, length_imageBytes, ?_⟩
    · rintro rfl
      exact hlogs
    · dsimp only
      omega
    · rw [length_imageBytes]
      omega

/-- A program that logs a line and exits with 41. -/
def helloSource : Bytes :=
  asciiBytes ("int main(void) \x7b expos_log(\"hello C\\n\"); " ++ "return 41; \x7d")

theorem helloSource_loadable : ∃ image, NativeImage.parse (imageBytes (program 8 41)
        (asciiBytes "hello C\n")) = .ok image ∧ image.formatVersion = 1 ∧ image.entry = 0 ∧
      (∀ message, Logs .c helloSource message ↔ message = image.data) ∧
      image.code.length ≤ codeCapacity ∧ image.data.length ≤ dataCapacity ∧
      (imageBytes (program 8 41) (asciiBytes "hello C\n")).length =
        nativeImageHeader + image.code.length + image.data.length ∧
      (imageBytes (program 8 41) (asciiBytes "hello C\n")).length ≤
        compilerImageLimit :=
  (compile_loadable .c helloSource).2 _ (by decide +kernel)

end NativeCompiler

end ExpOS
