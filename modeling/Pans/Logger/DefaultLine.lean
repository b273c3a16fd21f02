import Pans.Formatter.Decimal
import Pans.Formatter.Thread
import Pans.Lib.Delimiter
import Pans.Logger.Manager

/-!
# Lines of the default pattern

What a line shows of its record, and how it can be read from the line again. The program writes such lines and reads
none: the reader is here to say that they can be told apart.
-/

namespace Pans

/-- What the default pattern shows of a record. -/
structure DefaultLine where
  date : Bytes
  microseconds : Bytes
  threadId : UInt64
  fiberId : UInt64
  level : LogLevel
  fileName : Bytes
  line : UInt32
  message : Bytes
  deriving DecidableEq, Repr

/-- The line of a record, with the text of its second. -/
def LogRecordView.defaultLine (date : Bytes) (record : LogRecordView) : DefaultLine where
  date := date
  microseconds := microsecondDigits record
  threadId := record.threadId
  fiberId := record.fiberId
  level := record.level
  fileName := record.fileName
  line := record.line
  message := record.message

def defaultDateFormat : Bytes := ascii "%Y-%m-%d %H:%M:%S"

/-- The line that a record gets from scratch. -/
def LogRecordView.shown {Tm : Type} (libc : Libc Tm) (record : LogRecordView) : DefaultLine :=
  record.defaultLine (libc.convert defaultDateFormat record.currentSecond)

def SixDigits (text : Bytes) : Prop := text.length = 6 ∧ ∀ b ∈ text, IsDigit b

instance (text : Bytes) : Decidable (SixDigits text) :=
  decidable_of_iff (text.length = 6 ∧ text.all (fun b => IsDigit b) = true) (by simp [SixDigits])

namespace DefaultLine

def text (entry : DefaultLine) : Bytes :=
  entry.date ++ ascii "." ++ entry.microseconds ++ ascii "\tthread=" ++ decimalDigits entry.threadId.toNat ++
    ascii "\tfiber=" ++ decimalDigits entry.fiberId.toNat ++ ascii "\t[" ++ entry.level.toString ++ ascii "]\t" ++
    entry.fileName ++ ascii ":" ++ decimalDigits entry.line.toNat ++ ascii "\t" ++ entry.message

/-- The parts of the line can be told from one another, and the line from the next one. -/
structure Plain (entry : DefaultLine) : Prop where
  date : byte '.' ∉ entry.date
  microseconds : SixDigits entry.microseconds
  fileName : byte '\t' ∉ entry.fileName
  message : byte '\n' ∉ entry.message

end DefaultLine

instance (entry : DefaultLine) : Decidable entry.Plain :=
  decidable_of_iff (byte '.' ∉ entry.date ∧ SixDigits entry.microseconds ∧ byte '\t' ∉ entry.fileName ∧
    byte '\n' ∉ entry.message)
    ⟨fun h => ⟨h.1, h.2.1, h.2.2.1, h.2.2.2⟩, fun h => ⟨h.date, h.microseconds, h.fileName, h.message⟩⟩

/-! ## Reading -/

theorem readU64_eq_some_iff {text : Bytes} {n : UInt64} :
    (readDecimal (2 ^ 64) text).map UInt64.ofNat = some n ↔ True ∧ text = decimalDigits n.toNat := by
  simp only [Option.map_eq_some_iff, readDecimal_eq_some_iff, true_and]
  constructor
  · rintro ⟨m, ⟨hm, rfl⟩, rfl⟩
    rw [UInt64.toNat_ofNat_of_lt' hm]
  · rintro rfl
    exact ⟨n.toNat, ⟨n.toNat_lt, rfl⟩, UInt64.ofNat_toNat⟩

theorem readU32_eq_some_iff {text : Bytes} {n : UInt32} :
    (readDecimal (2 ^ 32) text).map UInt32.ofNat = some n ↔ True ∧ text = decimalDigits n.toNat := by
  simp only [Option.map_eq_some_iff, readDecimal_eq_some_iff, true_and]
  constructor
  · rintro ⟨m, ⟨hm, rfl⟩, rfl⟩
    rw [UInt32.toNat_ofNat_of_lt' hm]
  · rintro rfl
    exact ⟨n.toNat, ⟨n.toNat_lt, rfl⟩, UInt32.ofNat_toNat⟩

def readLevel (text : Bytes) : Option LogLevel :=
  [LogLevel.debug, .info, .warn, .error, .fatal, .off].find? fun level => level.toString = text

theorem readLevel_eq_some_iff {text : Bytes} {level : LogLevel} :
    readLevel text = some level ↔ True ∧ text = level.toString := by
  rw [true_and]
  constructor
  · intro h
    simpa [eq_comm] using List.find?_some h
  · rintro rfl
    cases level <;> decide

def readMicroseconds (text : Bytes) : Option Bytes :=
  if SixDigits text then some text else none

theorem readMicroseconds_eq_some_iff {text digits : Bytes} :
    readMicroseconds text = some digits ↔ SixDigits digits ∧ text = digits := by
  unfold readMicroseconds
  constructor
  · intro h
    split at h <;> cases h
    rename_i hdigits
    exact ⟨hdigits, rfl⟩
  · rintro ⟨hdigits, rfl⟩
    exact if_pos hdigits

/-- The name of a file may contain colons itself. -/
def readPlace (text : Bytes) : Option (Bytes × UInt32) :=
  (Delimiter.cutLast (byte ':') text).bind fun p =>
    ((readDecimal (2 ^ 32) p.2).map UInt32.ofNat).map fun line => (p.1, line)

theorem readPlace_eq_some_iff {text : Bytes} {place : Bytes × UInt32} :
    readPlace text = some place ↔ True ∧ text = place.1 ++ byte ':' :: decimalDigits place.2.toNat := by
  rw [true_and, readPlace]
  constructor
  · intro h
    obtain ⟨⟨fileName, digits⟩, hcut, hline⟩ := Option.bind_eq_some_iff.mp h
    obtain ⟨line, hread, rfl⟩ := Option.map_eq_some_iff.mp hline
    obtain ⟨_, rfl⟩ := Delimiter.cutLast_eq_some_iff.mp hcut
    obtain ⟨_, rfl⟩ := readU32_eq_some_iff.mp hread
    rfl
  · rintro rfl
    rw [Delimiter.cutLast_eq_some_iff.mpr ⟨not_mem_decimalDigits (by decide) _, rfl⟩, Option.bind_some,
      readU32_eq_some_iff.mpr ⟨trivial, rfl⟩, Option.map_some]

def microsecondsReading : Reading Bytes Bytes where
  Valid := SixDigits
  write digits := digits
  read := readMicroseconds
  read_eq_some_iff := readMicroseconds_eq_some_iff

def u64Reading : Reading Bytes UInt64 where
  Valid _ := True
  write n := decimalDigits n.toNat
  read text := (readDecimal (2 ^ 64) text).map UInt64.ofNat
  read_eq_some_iff := readU64_eq_some_iff

def levelReading : Reading Bytes LogLevel where
  Valid _ := True
  write := LogLevel.toString
  read := readLevel
  read_eq_some_iff := readLevel_eq_some_iff

def placeReading : Reading Bytes (Bytes × UInt32) where
  Valid _ := True
  write place := place.1 ++ byte ':' :: decimalDigits place.2.toNat
  read := readPlace
  read_eq_some_iff := readPlace_eq_some_iff

namespace DefaultLine

abbrev Parts : Type := Bytes × Bytes × UInt64 × UInt64 × LogLevel × (Bytes × UInt32) × Bytes

def parts (entry : DefaultLine) : Parts :=
  (entry.date, entry.microseconds, entry.threadId, entry.fiberId, entry.level, (entry.fileName, entry.line),
    entry.message)

def ofParts (parts : Parts) : DefaultLine where
  date := parts.1
  microseconds := parts.2.1
  threadId := parts.2.2.1
  fiberId := parts.2.2.2.1
  level := parts.2.2.2.2.1
  fileName := parts.2.2.2.2.2.1.1
  line := parts.2.2.2.2.2.1.2
  message := parts.2.2.2.2.2.2

theorem ofParts_eq_some_iff {parts : Parts} {entry : DefaultLine} :
    some (ofParts parts) = some entry ↔ True ∧ parts = entry.parts := by
  rw [Option.some.injEq, true_and]
  constructor <;> rintro rfl <;> rfl

def partsReading : Reading Parts DefaultLine where
  Valid _ := True
  write := parts
  read p := some (ofParts p)
  read_eq_some_iff := ofParts_eq_some_iff

open Delimiter SymbolCode in
/-- Lines, each with its newline. -/
def lineCode : SymbolCode DefaultLine Byte :=
  SymbolCode.of
    ((code (byte '.')).seq <|
      ((code (byte '\t')).of microsecondsReading).seq <|
      (((code (byte '\t')).of u64Reading).after (ascii "thread=")).seq <|
      (((code (byte '\t')).of u64Reading).after (ascii "fiber=")).seq <|
      (((code (byte ']')).of levelReading).after (ascii "[")).seq <|
      (((code (byte '\t')).of placeReading).after (ascii "\t")).seq <|
      code (byte '\n'))
    partsReading

end DefaultLine

end Pans
